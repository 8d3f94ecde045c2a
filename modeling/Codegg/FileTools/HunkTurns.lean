import Codegg.FileTools.HunkEdits

/-!
# When hunks make one text of the other

The lines written and the lines still to be read are the original lines with the inserted lines and
without the dropped ones, in some order. They are in the right order when each hunk without old
lines inserts what stands beside it, as its cursor is one line early.
-/
namespace Codegg.FileTools

open Codegg.Library DiffHunk Cursor DiffLine

variable {idx p q : ℕ} {line : Text} {s t : Cursor} {hunks : List DiffHunk} {as bs rest : List Text}
  {h : DiffHunk}

section Balance

variable {original : List Text}

/-- All lines that were written or are still to be read. -/
def Cursor.all (original : List Text) (t : Cursor) : List Text :=
  t.output ++ original.drop t.origIdx

/-- The lines with a tag that are not passed over, as they are read. -/
def readLines (tag : LineTag) (body : List DiffLine) : List Text :=
  (body.filter fun l => l.tag = tag ∧ l.skipped = false).map read

theorem drop_of_getElem? (h : original[idx]? = some line) :
    original.drop idx = line :: original.drop (idx + 1) := by
  obtain ⟨hidx, rfl⟩ := List.getElem?_eq_some_iff.1 h
  exact List.drop_eq_getElem_cons hidx

theorem editLine_balance {l : DiffLine} (h : editLine original s l = some t) :
    (t.all original ++ readLines .drop [l]).Perm (s.all original ++ readLines .add [l]) := by
  unfold editLine at h
  cases hskipped : l.skipped with
  | true =>
    have hst : s = t := by simpa [hskipped] using h
    simp [hst, readLines, hskipped]
  | false =>
    simp only [hskipped, Bool.false_eq_true, if_false] at h
    cases htag : l.tag with
    | keep =>
      simp only [htag, Option.ite_none_right_eq_some, Option.some.injEq] at h
      obtain ⟨hread, rfl⟩ := h
      simp [readLines, htag, all, drop_of_getElem? hread]
    | drop =>
      simp only [htag, Option.ite_none_right_eq_some, Option.some.injEq] at h
      obtain ⟨hread, rfl⟩ := h
      have hout : readLines .drop [l] = [l.read] := by simp [readLines, htag, hskipped]
      have hins : readLines .add [l] = [] := by simp [readLines, htag]
      rw [hout, hins, List.append_nil, all, all, drop_of_getElem? hread,
        List.append_assoc]
      exact List.perm_append_singleton _ _ |>.append_left _
    | add =>
      simp only [htag, Option.some.injEq] at h
      subst h
      have hout : readLines .drop [l] = [] := by simp [readLines, htag]
      have hins : readLines .add [l] = [l.read] := by simp [readLines, htag, hskipped]
      rw [hout, hins, List.append_nil, all, all, List.append_assoc,
        List.append_assoc]
      exact List.perm_append_comm.append_left _

theorem readLines_cons (tag : LineTag) (l : DiffLine) (body : List DiffLine) :
    readLines tag (l :: body) = readLines tag [l] ++ readLines tag body := by
  simp only [readLines, List.filter_cons]
  split_ifs <;> rfl

theorem readLines_append (tag : LineTag) (body body' : List DiffLine) :
    readLines tag (body ++ body') = readLines tag body ++ readLines tag body' := by
  simp [readLines]

/-- Lines that a step accounts for, and then a run. -/
theorem balance_trans {before mid after out out' ins ins' : List Text}
    (h : (mid ++ out).Perm (before ++ ins)) (h' : (after ++ out').Perm (mid ++ ins')) :
    (after ++ (out ++ out')).Perm (before ++ (ins ++ ins')) := by
  calc (after ++ (out ++ out')).Perm ((after ++ out') ++ out) := by
        rw [List.append_assoc]
        exact List.perm_append_comm.append_left _
    _ |>.Perm ((mid ++ ins') ++ out) := h'.append_right _
    _ |>.Perm ((mid ++ out) ++ ins') := by
        rw [List.append_assoc, List.append_assoc]
        exact List.perm_append_comm.append_left _
    _ |>.Perm ((before ++ ins) ++ ins') := h.append_right _
    _ |>.Perm (before ++ (ins ++ ins')) := by rw [List.append_assoc]

theorem editLines_balance {body : List DiffLine} (h : body.foldlM (editLine original) s = some t) :
    (t.all original ++ readLines .drop body).Perm (s.all original ++ readLines .add body) := by
  induction body generalizing s with
  | nil =>
    cases h
    simp [readLines]
  | cons l body ih =>
    rw [List.foldlM_cons, Option.bind_eq_bind, Option.bind_eq_some_iff] at h
    obtain ⟨mid, hline, hrest⟩ := h
    rw [readLines_cons, readLines_cons .add]
    exact balance_trans (editLine_balance hline) (ih hrest)

theorem moveTo_all {oldStart : ℕ} (h : moveTo original s oldStart = some t) :
    t.all original = s.all original := by
  unfold moveTo at h
  split_ifs at h with hbad
  cases h
  have hcut : original.drop s.origIdx =
      (original.take (oldStart - 1)).drop s.origIdx ++ original.drop (oldStart - 1) := by
    rw [← List.drop_append_of_le_length (by simp; omega), List.take_append_drop]
  simp [all, hcut]

theorem editHunks_balance (h : hunks.foldlM (editHunk original) s = some t) :
    (t.all original ++ readLines .drop (hunks.flatMap body)).Perm
      (s.all original ++ readLines .add (hunks.flatMap body)) := by
  induction hunks generalizing s with
  | nil =>
    cases h
    simp [readLines]
  | cons hunk hunks ih =>
    rw [List.foldlM_cons, Option.bind_eq_bind, Option.bind_eq_some_iff] at h
    obtain ⟨mid, hhunk, hrest⟩ := h
    obtain ⟨moved, hmoved, hbody⟩ := Option.bind_eq_some_iff.1 hhunk
    rw [List.flatMap_cons, readLines_append, readLines_append]
    refine balance_trans ?_ (ih hrest)
    rw [← moveTo_all hmoved]
    exact editLines_balance hbody

/-- The lines of a tag, with their ends. -/
def rawLines (tag : LineTag) (body : List DiffLine) : List Text :=
  (body.filter fun l => l.tag = tag).map raw

theorem DiffHunk.balance (h : DiffHunk) :
    (h.newLines ++ rawLines .drop h.body).Perm (h.oldLines ++ rawLines .add h.body) := by
  unfold newLines oldLines rawLines
  rw [← List.map_append, ← List.map_append]
  refine List.Perm.map _ ?_
  induction h.body with
  | nil => simp
  | cons l body ih =>
    cases htag : l.tag with
    | keep => simpa [htag] using ih
    | drop =>
      simp only [List.filter_cons, htag]
      exact List.perm_middle.trans (ih.cons l)
    | add =>
      simp only [List.filter_cons, htag]
      exact (ih.cons l).trans List.perm_middle.symm

/-- The same holds of the texts that a diff is between. -/
theorem Turns.balance (hturns : Turns p q hunks as bs) :
    (bs ++ rawLines .drop (hunks.flatMap body)).Perm
      (as ++ rawLines .add (hunks.flatMap body)) := by
  induction hturns with
  | nil p q rest => simp [rawLines]
  | @cons p q h hunks gap restA restB hold hnew hrest ih =>
    have hhunk := h.balance
    have hflat (tag : LineTag) : rawLines tag ((h :: hunks).flatMap body) =
        rawLines tag h.body ++ rawLines tag (hunks.flatMap body) := by
      simp [rawLines]
    rw [hflat, hflat]
    simp only [← Multiset.coe_eq_coe, ← Multiset.coe_add] at ih hhunk ⊢
    calc _ = (gap : Multiset Text) + (h.newLines + rawLines .drop h.body) +
          (restB + rawLines .drop (hunks.flatMap body)) := by abel
      _ = gap + (h.oldLines + rawLines .add h.body) +
          (restA + rawLines .add (hunks.flatMap body)) := by rw [ih, hhunk]
      _ = _ := by abel

end Balance

section Alignment

variable {original : List Text}

theorem cons_prefix_drop :
    line :: rest <+: original.drop idx ↔
      original[idx]? = some line ∧ rest <+: original.drop (idx + 1) := by
  constructor
  · intro h
    have hidx : original[idx]? = some line := by
      obtain ⟨tail, htail⟩ := h
      have hzero := congrArg (fun ls => ls[0]?) htail
      simpa using hzero.symm
    rw [drop_of_getElem? hidx, List.cons_prefix_cons] at h
    exact ⟨hidx, h.2⟩
  · rintro ⟨hidx, hrest⟩
    rw [drop_of_getElem? hidx, List.cons_prefix_cons]
    exact ⟨rfl, hrest⟩

/-- The old lines that the applier reads in a hunk. -/
def DiffHunk.oldRead (h : DiffHunk) : List Text :=
  (h.body.filter fun l => l.tag ≠ .add).map read

def DiffHunk.newRead (h : DiffHunk) : List Text :=
  (h.body.filter fun l => l.tag ≠ .drop).map read

/-- When nothing is passed over, a hunk is applied exactly where its old lines stand. -/
theorem editLines_iff {body : List DiffLine} (hskipped : ∀ l ∈ body, l.skipped = false) :
    body.foldlM (editLine original) s = some t ↔
      (body.filter fun l => l.tag ≠ .add).map read <+: original.drop s.origIdx ∧
      t = ⟨s.output ++ (body.filter fun l => l.tag ≠ .drop).map read,
        s.origIdx + (body.filter fun l => l.tag ≠ .add).length⟩ := by
  induction body generalizing s with
  | nil => simp [eq_comm]
  | cons l body ih =>
    have hl : l.skipped = false := hskipped l (by simp)
    have hrest := fun s : Cursor => ih (fun m hm => hskipped m (by simp [hm])) (s := s)
    rw [List.foldlM_cons, editLine, if_neg (by simp [hl])]
    cases htag : l.tag with
    | keep =>
      by_cases hread : original[s.origIdx]? = some l.read
      · simp [hread, htag, hrest, cons_prefix_drop, Nat.add_assoc, Nat.add_comm 1]
      · simp [hread, htag, cons_prefix_drop]
    | drop =>
      by_cases hread : original[s.origIdx]? = some l.read
      · simp [hread, htag, hrest, cons_prefix_drop, Nat.add_assoc, Nat.add_comm 1]
      · simp [hread, htag, cons_prefix_drop]
    | add => simp [htag, hrest]

theorem editHunk_iff (hskipped : ∀ l ∈ h.body, l.skipped = false) :
    editHunk original s h = some t ↔
      (s.origIdx ≤ h.oldStart - 1 ∧ h.oldStart - 1 ≤ original.length) ∧
      h.oldRead <+: original.drop (h.oldStart - 1) ∧
      t = ⟨s.output ++ (original.take (h.oldStart - 1)).drop s.origIdx ++ h.newRead,
        h.oldStart - 1 + h.oldLines.length⟩ := by
  have hlength : h.oldLines.length = (h.body.filter fun l => l.tag ≠ .add).length := by
    simp [oldLines]
  unfold editHunk moveTo
  by_cases hbad : h.oldStart - 1 < s.origIdx ∨ original.length < h.oldStart - 1
  · have hnot : ¬(s.origIdx ≤ h.oldStart - 1 ∧ h.oldStart - 1 ≤ original.length) := by omega
    rw [if_pos hbad]
    exact iff_of_false (by simp) fun h => hnot h.1
  · have hgood : s.origIdx ≤ h.oldStart - 1 ∧ h.oldStart - 1 ≤ original.length := by omega
    rw [if_neg hbad, Option.bind_some, editLines_iff hskipped, hlength]
    simp [hgood, oldRead, newRead]

/-- What is written is never taken back. -/
theorem editHunks_output (hskipped : ∀ h ∈ hunks, ∀ l ∈ h.body, l.skipped = false)
    (h : hunks.foldlM (editHunk original) s = some t) : s.output <+: t.output := by
  induction hunks generalizing s with
  | nil =>
    cases h
    exact List.prefix_refl _
  | cons hunk hunks ih =>
    rw [List.foldlM_cons, Option.bind_eq_bind, Option.bind_eq_some_iff] at h
    obtain ⟨mid, hhunk, hrest⟩ := h
    obtain ⟨-, -, rfl⟩ := (editHunk_iff (hskipped hunk (by simp))).1 hhunk
    have hlater := ih (fun next hnext => hskipped next (by simp [hnext])) hrest
    refine List.IsPrefix.trans ?_ hlater
    simp [List.append_assoc]

end Alignment

attribute [local simp] readLines DiffHunk.oldRead Nat.add_assoc cons_prefix_drop

section Fitting

variable (original : List Text)

/-- Lines are inserted before the line that they are to stand behind. No hunk may have read that
line, and it has to be like each of them. -/
structure DiffHunk.Fits (hunks : List DiffHunk) (h : DiffHunk) : Prop where
  apart : ∀ h' ∈ hunks, h'.oldLines ≠ [] → h'.oldStart + h'.oldLines.length ≠ h.oldStart + 1
  alike : ∀ line ∈ h.newLines, original[h.oldStart - 1]? = some (lineContent line)

/-- Insertions fit from a place on, where the original is read up to a line. -/
def FitFrom (p idx : ℕ) (hunks : List DiffHunk) : Prop :=
  ∀ h ∈ hunks, h.oldLines = [] → 0 < h.oldStart →
    (idx = p → h.oldStart ≠ p) ∧ h.Fits original hunks

variable {original} {p p' idx : ℕ} {h : DiffHunk} {hunks : List DiffHunk}

/-- The hunks of a place are behind it. -/
theorem Turns.start_le (hturns : Turns p q hunks as bs) :
    ∀ h ∈ hunks, p ≤ h.oldStart ∧ (h.oldLines ≠ [] → p < h.oldStart) := by
  induction hturns with
  | nil => simp
  | @cons p q h hunks gap restA restB hold hnew hrest ih =>
    intro h' hh'
    rw [List.mem_cons] at hh'
    obtain rfl | hh' := hh'
    · rw [hold]
      unfold startOf
      split_ifs with hempty
      · exact ⟨by omega, fun hne => absurd hempty hne⟩
      · exact ⟨by omega, fun _ => by omega⟩
    · obtain ⟨hle, hlt⟩ := ih h' hh'
      exact ⟨by omega, fun hne => by have := hlt hne; omega⟩

/-- After a hunk whose place the cursor finds, it is behind the hunk. -/
theorem fitFrom_cons (hle : p + h.oldLines.length ≤ p')
    (hlater : ∀ h' ∈ hunks, p' ≤ h'.oldStart ∧ (h'.oldLines ≠ [] → p' < h'.oldStart))
    (hplace : h.oldLines ≠ [] ∧ h.oldStart + h.oldLines.length = p' + 1 ∨
      h.oldLines = [] ∧ h.oldStart = 0 ∧ p' = 0) :
    FitFrom original p idx (h :: hunks) ↔ FitFrom original p' p' hunks := by
  constructor
  · intro hfit h2 hmem hempty hpos
    obtain ⟨-, hfits⟩ := hfit h2 (by simp [hmem]) hempty hpos
    refine ⟨fun _ => ?_, fun h' hmem' => hfits.apart h' (by simp [hmem']), hfits.alike⟩
    obtain ⟨hne, hend⟩ | ⟨-, -, hzero⟩ := hplace
    · have hapart := hfits.apart h (by simp) hne
      omega
    · omega
  · intro hfit h2 hmem hempty hpos
    rw [List.mem_cons] at hmem
    obtain rfl | hmem := hmem
    · obtain ⟨hne, -⟩ | ⟨-, hzero, -⟩ := hplace
      · exact absurd hempty hne
      · omega
    · obtain ⟨hbehind, hfits⟩ := hfit h2 hmem hempty hpos
      have hlater2 := (hlater h2 hmem).1
      refine ⟨fun _ => ?_, fun h' hmem' hne => ?_, hfits.alike⟩
      · omega
      · rw [List.mem_cons] at hmem'
        obtain rfl | hmem' := hmem'
        · obtain ⟨-, hend⟩ | ⟨hnil, -⟩ := hplace
          · omega
          · exact absurd hnil hne
        · exact hfits.apart h' hmem' hne

/-- After an insertion, the cursor is one line before the place. -/
theorem fitFrom_cons_insertion (hle : p ≤ p') (hpos : 0 < p')
    (hlater : ∀ h' ∈ hunks, p' ≤ h'.oldStart ∧ (h'.oldLines ≠ [] → p' < h'.oldStart))
    (hempty : h.oldLines = []) (hplace : h.oldStart = p') :
    FitFrom original p idx (h :: hunks) ↔
      (idx = p → p' ≠ p) ∧
        (∀ line ∈ h.newLines, original[p' - 1]? = some (lineContent line)) ∧
        FitFrom original p' (p' - 1) hunks := by
  subst hplace
  constructor
  · intro hfit
    obtain ⟨hbehind, hfits⟩ := hfit h (by simp) hempty hpos
    refine ⟨hbehind, hfits.alike, fun h2 hmem hempty2 hpos2 => ⟨fun _ => by omega, ?_⟩⟩
    obtain ⟨-, hfits2⟩ := hfit h2 (by simp [hmem]) hempty2 hpos2
    exact ⟨fun h' hmem' => hfits2.apart h' (by simp [hmem']), hfits2.alike⟩
  · rintro ⟨hbehind, halike, hfit⟩ h2 hmem hempty2 hpos2
    rw [List.mem_cons] at hmem
    obtain rfl | hmem := hmem
    · refine ⟨hbehind, fun h' hmem' hne => ?_, halike⟩
      rw [List.mem_cons] at hmem'
      obtain rfl | hmem' := hmem'
      · exact absurd hempty hne
      · have hlt := (hlater h' hmem').2 hne
        have hlength : 0 < h'.oldLines.length := List.length_pos_of_ne_nil hne
        omega
    · obtain ⟨-, hfits⟩ := hfit h2 hmem hempty2 hpos2
      have hlater2 := (hlater h2 hmem).1
      refine ⟨fun hidx => ?_, fun h' hmem' hne => ?_, hfits.alike⟩
      · omega
      · rw [List.mem_cons] at hmem'
        obtain rfl | hmem' := hmem'
        · exact absurd hempty hne
        · exact hfits.apart h' hmem' hne

end Fitting

section Turning

variable {original : List Text}

/-- Lines that stand before a line instead of behind it are all like it. -/
theorem append_eq_cons_append {ls tail : List Text} :
    ls ++ tail = line :: (ls ++ rest) ↔ (∀ l ∈ ls, l = line) ∧ tail = line :: rest := by
  induction ls generalizing line with
  | nil => simp
  | cons l ls ih =>
    rw [List.cons_append, List.cons_append, List.cons.injEq, ih]
    constructor
    · rintro ⟨rfl, hall, rfl⟩
      exact ⟨by simpa using hall, rfl⟩
    · rintro ⟨hall, rfl⟩
      obtain rfl : l = line := hall l (by simp)
      exact ⟨rfl, fun m hm => hall m (by simp [hm]), rfl⟩

/-- The applier reads lines as they stand in the original. -/
def ReadsAs (tag : LineTag → Prop) (hunks : List DiffHunk) : Prop :=
  ∀ h ∈ hunks, ∀ l ∈ h.body, tag l.tag → l.read = lineContent l.raw

theorem DiffHunk.oldRead_eq_iff :
    h.oldRead = h.oldLines.map lineContent ↔
      ∀ l ∈ h.body, l.tag ≠ .add → l.read = lineContent l.raw := by
  simp [oldLines]

theorem DiffHunk.newRead_eq (hread : ∀ l ∈ h.body, l.tag ≠ .drop → l.read = lineContent l.raw) :
    h.newRead = h.newLines.map lineContent := by
  simpa [newRead, newLines] using hread

/-- A hunk whose place the cursor finds is applied exactly if its old lines are read as they
are. -/
theorem editHunk_at_place (hskipped : ∀ l ∈ h.body, l.skipped = false) {front : List Text}
    (hfront : front.length = h.oldStart - 1)
    (horiginal : original = front ++ (h.oldLines.map lineContent ++ rest))
    (hidx : s.origIdx ≤ front.length) :
    editHunk original s h = some t ↔
      (∀ l ∈ h.body, l.tag ≠ .add → l.read = lineContent l.raw) ∧
      t = ⟨s.output ++ front.drop s.origIdx ++ h.newRead, front.length + h.oldLines.length⟩ := by
  have hbounds : s.origIdx ≤ h.oldStart - 1 ∧ h.oldStart - 1 ≤ original.length := by
    rw [horiginal, List.length_append]
    omega
  have hlength : h.oldRead.length = (h.oldLines.map lineContent).length := by
    simp [oldLines]
  have hprefix : h.oldRead <+: original.drop (h.oldStart - 1) ↔
      h.oldRead = h.oldLines.map lineContent := by
    rw [horiginal, ← hfront, List.drop_left]
    constructor
    · intro h
      exact (List.prefix_of_prefix_length_le h (List.prefix_append _ _) hlength.le).eq_of_length
        hlength
    · intro h
      rw [h]
      exact List.prefix_append _ _
  have htake : original.take (h.oldStart - 1) = front := by
    rw [horiginal, ← hfront, List.take_left]
  rw [editHunk_iff hskipped, hprefix, htake, oldRead_eq_iff, hfront]
  exact and_iff_right hbounds

/-- The hunks can be applied at a cursor, and leave some lines altogether. -/
def Turned (original : List Text) (s : Cursor) (hunks : List DiffHunk) (target : List Text) : Prop :=
  ∃ t, hunks.foldlM (editHunk original) s = some t ∧ t.all original = target

theorem turned_cons (hskipped : ∀ l ∈ h.body, l.skipped = false)
    (hadd : ∀ l ∈ h.body, l.tag = .add → l.read = lineContent l.raw) {front target : List Text}
    (hfront : front.length = h.oldStart - 1)
    (horiginal : original = front ++ (h.oldLines.map lineContent ++ rest))
    (hidx : s.origIdx ≤ front.length) :
    Turned original s (h :: hunks) target ↔
      (∀ l ∈ h.body, l.tag ≠ .add → l.read = lineContent l.raw) ∧
      Turned original ⟨s.output ++ front.drop s.origIdx ++ h.newLines.map lineContent,
        front.length + h.oldLines.length⟩ hunks target := by
  have hnew (hread : ∀ l ∈ h.body, l.tag ≠ .add → l.read = lineContent l.raw) :
      h.newRead = h.newLines.map lineContent := newRead_eq fun l hl _ => by
    by_cases hadded : l.tag = .add
    · exact hadd l hl hadded
    · exact hread l hl hadded
  simp only [Turned, List.foldlM_cons, Option.bind_eq_bind, Option.bind_eq_some_iff,
    editHunk_at_place hskipped hfront horiginal hidx]
  constructor
  · rintro ⟨t, ⟨mid, ⟨hread, rfl⟩, ht⟩, htarget⟩
    rw [hnew hread] at ht
    exact ⟨hread, t, ht, htarget⟩
  · rintro ⟨hread, t, ht, htarget⟩
    rw [← hnew hread] at ht
    exact ⟨t, ⟨_, ⟨hread, rfl⟩, ht⟩, htarget⟩

/-- Lines written before a line are in place exactly if they are like it. -/
theorem turned_early (hskipped : ∀ h ∈ hunks, ∀ l ∈ h.body, l.skipped = false)
    {output inserted : List Text} :
    Turned original ⟨output ++ inserted, idx⟩ hunks (output ++ line :: (inserted ++ rest)) ↔
      (∀ l ∈ inserted, l = line) ∧
        Turned original ⟨output ++ inserted, idx⟩ hunks (output ++ inserted ++ line :: rest) := by
  have hall : ∀ t, hunks.foldlM (editHunk original) ⟨output ++ inserted, idx⟩ = some t →
      (t.all original = output ++ line :: (inserted ++ rest) ↔
        (∀ l ∈ inserted, l = line) ∧ t.all original = output ++ inserted ++ line :: rest) := by
    intro t ht
    obtain ⟨tail, htail⟩ := (editHunks_output hskipped ht).trans
      (List.prefix_append _ (original.drop t.origIdx))
    have hend : t.all original = output ++ (inserted ++ tail) := by
      rw [all, ← htail, List.append_assoc]
    rw [hend, List.append_assoc, List.append_cancel_left_eq, List.append_cancel_left_eq,
      append_eq_cons_append, List.append_cancel_left_eq]
  constructor
  · rintro ⟨t, ht, htarget⟩
    obtain ⟨hlike, hend⟩ := (hall t ht).1 htarget
    exact ⟨hlike, t, ht, hend⟩
  · rintro ⟨hlike, t, ht, hend⟩
    exact ⟨t, ht, (hall t ht).2 ⟨hlike, hend⟩⟩

/-- The cursor makes the new lines of the old exactly if it reads the old lines as they are and
the insertions fit. -/
theorem Turns.turned_iff (hturns : Turns p q hunks as bs)
    (hskipped : ∀ h ∈ hunks, ∀ l ∈ h.body, l.skipped = false) (hadd : ReadsAs (· = .add) hunks)
    {pre : List Text} (hp : pre.length = p) (horiginal : original = pre ++ as.map lineContent)
    (hidx : s.origIdx = p ∨ s.origIdx + 1 = p) :
    Turned original s hunks (s.output ++ pre.drop s.origIdx ++ bs.map lineContent) ↔
      ReadsAs (· ≠ .add) hunks ∧ FitFrom original p s.origIdx hunks := by
  induction hturns generalizing pre s with
  | nil p q rest =>
    have hdrop : original.drop s.origIdx = pre.drop s.origIdx ++ rest.map lineContent := by
      rw [horiginal, List.drop_append_of_le_length (by omega)]
    simp [Turned, ReadsAs, FitFrom, all, hdrop]
  | @cons p q h hunks gap restA restB hold hnew hrest ih =>
    have hskippedHunk : ∀ l ∈ h.body, l.skipped = false := hskipped h (by simp)
    have hskippedRest : ∀ h' ∈ hunks, ∀ l ∈ h'.body, l.skipped = false :=
      fun h' hmem => hskipped h' (by simp [hmem])
    have haddHunk : ∀ l ∈ h.body, l.tag = .add → l.read = lineContent l.raw := hadd h (by simp)
    have haddRest : ReadsAs (· = .add) hunks := fun h' hmem => hadd h' (by simp [hmem])
    have hreads : ReadsAs (· ≠ .add) (h :: hunks) ↔
        (∀ l ∈ h.body, l.tag ≠ .add → l.read = lineContent l.raw) ∧ ReadsAs (· ≠ .add) hunks := by
      simp [ReadsAs]
    have hlater := hrest.start_le
    have hgap : (pre ++ gap.map lineContent).length = p + gap.length := by simp [hp]
    by_cases hplace : h.oldLines ≠ [] ∨ p + gap.length = 0
    · -- The cursor is moved to the line behind the gap.
      have hstart : h.oldStart - 1 = p + gap.length := by
        rw [hold, startOf]
        split_ifs with hempty
        · have hzero := hplace.resolve_left (by simp [hempty])
          omega
        · omega
      have hfits : FitFrom original p s.origIdx (h :: hunks) ↔
          FitFrom original (p + gap.length + h.oldLines.length)
            (p + gap.length + h.oldLines.length) hunks := by
        refine fitFrom_cons (by omega) hlater ?_
        rw [hold, startOf]
        split_ifs with hempty
        · have hzero := hplace.resolve_left (by simp [hempty])
          exact .inr ⟨hempty, hzero, by rw [hempty]; exact hzero⟩
        · exact .inl ⟨hempty, by omega⟩
      have hcut : original = pre ++ gap.map lineContent ++
          (h.oldLines.map lineContent ++ restA.map lineContent) := by
        simp [horiginal]
      rw [hreads, hfits, and_assoc, turned_cons hskippedHunk haddHunk (hgap.trans hstart.symm) hcut
        (by omega), hgap]
      refine and_congr_right fun _ => ?_
      have hp' : (pre ++ gap.map lineContent ++ h.oldLines.map lineContent).length =
          p + gap.length + h.oldLines.length := by
        simp [hp]
      have hrun := ih hskippedRest haddRest hp'
        (by simp [hcut])
        (s := ⟨s.output ++ (pre ++ gap.map lineContent).drop s.origIdx ++
          h.newLines.map lineContent, p + gap.length + h.oldLines.length⟩) (.inl rfl)
      have hnil : (pre ++ gap.map lineContent ++ h.oldLines.map lineContent).drop
          (p + gap.length + h.oldLines.length) = [] :=
        List.drop_eq_nil_of_le (by simp [hp])
      have hdrop : (pre ++ gap.map lineContent).drop s.origIdx =
          pre.drop s.origIdx ++ gap.map lineContent := List.drop_append_of_le_length (by omega)
      have htarget : s.output ++ pre.drop s.origIdx ++ (gap ++ h.newLines ++ restB).map lineContent =
          s.output ++ (pre ++ gap.map lineContent).drop s.origIdx ++ h.newLines.map lineContent ++
            (pre ++ gap.map lineContent ++ h.oldLines.map lineContent).drop
              (p + gap.length + h.oldLines.length) ++ restB.map lineContent := by
        rw [hnil, hdrop]
        simp
      rw [htarget]
      exact hrun
    · -- The cursor is moved to the line before the end of the gap.
      obtain ⟨hempty, hpos⟩ : h.oldLines = [] ∧ 0 < p + gap.length := by
        constructor
        · by_contra hne
          exact hplace (.inl hne)
        · omega
      have hstart : h.oldStart = p + gap.length := by rw [hold, startOf, if_pos hempty]
      obtain ⟨front, line, hfront⟩ : ∃ front line, pre ++ gap.map lineContent = front ++ [line] := by
        obtain hnil | ⟨front, line, hcut⟩ := List.eq_nil_or_concat (pre ++ gap.map lineContent)
        · rw [hnil, List.length_nil] at hgap
          omega
        · exact ⟨front, line, by simpa using hcut⟩
      have hlength : front.length = p + gap.length - 1 := by
        rw [hfront, List.length_append, List.length_singleton] at hgap
        omega
      have hcut : original = front ++ (h.oldLines.map lineContent ++
          ([line] ++ restA.map lineContent)) := by
        rw [hempty, List.map_nil, List.nil_append, ← List.append_assoc, ← hfront, horiginal, hempty]
        simp
      have hlast : original[p + gap.length - 1]? = some line := by
        rw [← hlength, hcut, hempty]
        simp
      have hread : ∀ l ∈ h.body, l.tag ≠ .add → l.read = lineContent l.raw := by
        rw [← oldRead_eq_iff]
        have hlen : h.oldRead.length = h.oldLines.length := by
          simp [oldLines]
        rw [hempty] at hlen ⊢
        exact List.eq_nil_of_length_eq_zero hlen
      have hbehind : p + gap.length + h.oldLines.length = p + gap.length := by simp [hempty]
      rw [hreads, and_iff_right hread, fitFrom_cons_insertion (by omega) hpos
        (by simpa [hempty] using hlater) hempty hstart, hlast]
      by_cases hbefore : s.origIdx = p ∧ p + gap.length = p
      · refine iff_of_false ?_ fun h => h.2.1 hbefore.1 hbefore.2
        rintro ⟨t, ht, -⟩
        rw [List.foldlM_cons, Option.bind_eq_bind, Option.bind_eq_some_iff] at ht
        obtain ⟨mid, hmid, -⟩ := ht
        have hle := ((editHunk_iff hskippedHunk).1 hmid).1.1
        omega
      · have hle : s.origIdx ≤ front.length := by omega
        have htarget : s.output ++ pre.drop s.origIdx ++
            (gap ++ h.newLines ++ restB).map lineContent =
            s.output ++ front.drop s.origIdx ++
              (line :: (h.newLines.map lineContent ++ restB.map lineContent)) := by
          have hdrop : pre.drop s.origIdx ++ gap.map lineContent = front.drop s.origIdx ++ [line] := by
            rw [← List.drop_append_of_le_length (by omega), hfront,
              List.drop_append_of_le_length hle]
          rw [List.map_append, List.map_append, List.append_assoc s.output,
            List.append_assoc (gap.map lineContent), ← List.append_assoc (pre.drop _), hdrop]
          simp
        rw [htarget, turned_cons hskippedHunk haddHunk (by omega) hcut hle, and_iff_right hread,
          turned_early hskippedRest, hempty, List.length_nil, Nat.add_zero]
        have hp' : (front ++ [line]).length = p + gap.length + h.oldLines.length := by
          rw [← hfront, hgap, hbehind]
        have hrun := ih hskippedRest haddRest hp' (by simp [hcut, hempty])
          (s := ⟨s.output ++ front.drop s.origIdx ++ h.newLines.map lineContent, front.length⟩)
          (.inr (by dsimp only; omega))
        rw [List.drop_left, hbehind, hlength, List.append_assoc _ [line], List.singleton_append] at hrun
        have hlike : (∀ l ∈ h.newLines.map lineContent, l = line) ↔
            ∀ l ∈ h.newLines, some line = some (lineContent l) := by
          rw [List.forall_mem_map]
          exact forall₂_congr fun l _ => by rw [Option.some.injEq, eq_comm]
        have hapart : s.origIdx = p → p + gap.length ≠ p := fun hs hgap => hbefore ⟨hs, hgap⟩
        rw [hlength, hrun, hlike, and_iff_right hapart]
        exact and_left_comm

/-- The cursor never is behind the place of the next hunk, so old lines are only kept or dropped
as they are. -/
theorem Turns.readsAs_of_run (hturns : Turns p q hunks as bs)
    (hskipped : ∀ h ∈ hunks, ∀ l ∈ h.body, l.skipped = false) {pre : List Text}
    (hp : pre.length = p) (horiginal : original = pre ++ as.map lineContent) (hidx : s.origIdx ≤ p)
    (ht : hunks.foldlM (editHunk original) s = some t) :
    ReadsAs (· ≠ .add) hunks := by
  induction hturns generalizing pre s with
  | nil => simp [ReadsAs]
  | @cons p q h hunks gap restA restB hold hnew hrest ih =>
    have hskippedHunk : ∀ l ∈ h.body, l.skipped = false := hskipped h (by simp)
    rw [List.foldlM_cons, Option.bind_eq_bind, Option.bind_eq_some_iff] at ht
    obtain ⟨mid, hmid, hrun⟩ := ht
    obtain ⟨-, hprefix, rfl⟩ := (editHunk_iff hskippedHunk).1 hmid
    have hgap : (pre ++ gap.map lineContent).length = p + gap.length := by simp [hp]
    have hcut : original = pre ++ gap.map lineContent ++
        (h.oldLines.map lineContent ++ restA.map lineContent) := by
      simp [horiginal]
    have hlater : ReadsAs (· ≠ .add) hunks := by
      have hp' : (pre ++ gap.map lineContent ++ h.oldLines.map lineContent).length =
          p + gap.length + h.oldLines.length := by
        simp [hp]
      refine ih (fun h' hmem => hskipped h' (by simp [hmem])) hp' (by simp [hcut]) ?_ hrun
      dsimp only
      rw [hold, startOf]
      split_ifs <;> omega
    have hread : ∀ l ∈ h.body, l.tag ≠ .add → l.read = lineContent l.raw := by
      rw [← oldRead_eq_iff]
      have hlength : h.oldRead.length = (h.oldLines.map lineContent).length := by
        simp [oldLines]
      by_cases hempty : h.oldLines = []
      · rw [hempty] at hlength ⊢
        exact List.eq_nil_of_length_eq_zero hlength
      · have hstart : h.oldStart - 1 = (pre ++ gap.map lineContent).length := by
          rw [hold, startOf, if_neg hempty]
          omega
        rw [hcut, hstart, List.drop_left] at hprefix
        exact (List.prefix_of_prefix_length_le hprefix (List.prefix_append _ _)
          hlength.le).eq_of_length hlength
    intro h' hmem
    rw [List.mem_cons] at hmem
    obtain rfl | hmem := hmem
    · exact hread
    · exact hlater h' hmem

end Turning

end Codegg.FileTools
