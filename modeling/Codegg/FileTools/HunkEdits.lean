import Codegg.Library.StateError
import Codegg.FileTools.DiffFormat

/-!
# Hunks at a cursor

What the applier does with the hunks of a diff, without the text they are written in. It stops
where the applier fails.
-/
namespace Codegg.FileTools

open Codegg.Library

section Edits

/-- What was written, and how far the original is read. -/
structure Cursor where
  output : List Text
  origIdx : ℕ

def Applier.cursor (s : Applier) : Cursor := ⟨s.output, s.origIdx⟩

/-- The applier takes the line for one of a file header. -/
def DiffLine.skipped (l : DiffLine) : Bool := isPassedOver (l.tag.char :: l.read)

variable (original : List Text)

def moveTo (s : Cursor) (oldStart : ℕ) : Option Cursor :=
  if oldStart - 1 < s.origIdx ∨ original.length < oldStart - 1 then none
  else some ⟨s.output ++ (original.take (oldStart - 1)).drop s.origIdx, oldStart - 1⟩

def editLine (s : Cursor) (l : DiffLine) : Option Cursor :=
  if l.skipped then some s
  else
    match l.tag with
    | .keep =>
      if original[s.origIdx]? = some l.read then some ⟨s.output ++ [l.read], s.origIdx + 1⟩
      else none
    | .drop => if original[s.origIdx]? = some l.read then some ⟨s.output, s.origIdx + 1⟩ else none
    | .add => some ⟨s.output ++ [l.read], s.origIdx⟩

def editHunk (s : Cursor) (h : DiffHunk) : Option Cursor :=
  (moveTo original s h.oldStart).bind fun s => h.body.foldlM (editLine original) s

end Edits

variable {s : Applier} {t : Cursor}

section Simulation

variable {original : List Text}

/-- The applier is inside a hunk, at a cursor. -/
structure Inside (s : Applier) (t : Cursor) : Prop where
  cursor : s.cursor = t
  isOpen : s.hunk.isSome
  counted : 0 < s.hunks

theorem openHunk_matches {h : DiffHunk} (hformed : h.Formed) (hcursor : s.cursor = t) :
    Matches Inside (patchLine original s (dropReturn h.header)) (moveTo original t h.oldStart) := by
  subst hcursor
  have hheader : isHeader (dropReturn h.header) = true := by
    have hpre : ['@', '@'] <+: h.header := by
      exact List.prefix_iff_eq_append.2 (by simp [DiffHunk.header])
    simpa [isHeader] using (prefix_dropReturn (by decide)).2 hpre
  simp only [patchLine, hheader, openHunk, parseHunkOldStart_header hformed, moveTo,
    Applier.cursor]
  by_cases hbefore : h.oldStart - 1 < s.origIdx
  · simp only [hbefore]
    exact .error _
  · by_cases hpast : original.length < h.oldStart - 1
    · simp only [hbefore, hpast]
      exact .error _
    · simp only [hbefore, hpast]
      exact .ok ⟨rfl, rfl, by simp⟩

theorem remark_matches (h : Inside s t) :
    Matches Inside (patchLine original s noNewline) (some t) := by
  obtain ⟨rfl, hopen, hcounted⟩ := h
  obtain ⟨hunk, hhunk⟩ := Option.isSome_iff_exists.1 hopen
  have hheader : isHeader noNewline = false := by decide
  have hremark : isPassedOver noNewline = true := by decide
  have hstep : patchLine original s noNewline = .ok { s with patchIdx := s.patchIdx + 1 } := by
    simp [patchLine, hheader, hhunk, hunkLine, hremark]
  rw [hstep]
  exact .ok ⟨rfl, hopen, hcounted⟩

theorem patchLine_matches (l : DiffLine) (h : Inside s t) :
    Matches Inside (patchLine original s (l.tag.char :: l.read)) (editLine original t l) := by
  obtain ⟨rfl, hopen, hcounted⟩ := h
  obtain ⟨hunk, hhunk⟩ := Option.isSome_iff_exists.1 hopen
  have hheader : isHeader (l.tag.char :: l.read) = false := by cases l.tag <;> rfl
  by_cases hskipped : l.skipped
  · have hpassed : isPassedOver (l.tag.char :: l.read) = true := hskipped
    have hstep : patchLine original s (l.tag.char :: l.read) =
        .ok { s with patchIdx := s.patchIdx + 1 } := by
      simp [patchLine, hheader, hhunk, hunkLine, hpassed]
    rw [hstep, editLine, if_pos hskipped]
    exact .ok ⟨rfl, hopen, hcounted⟩
  · have hpassed : isPassedOver (l.tag.char :: l.read) = false := by
      simpa [DiffLine.skipped] using hskipped
    have hopened : patchLine original s (l.tag.char :: l.read) =
        hunkLine original s hunk (l.tag.char :: l.read) := by
      simp [patchLine, hheader, hhunk]
    rw [hopened, editLine, if_neg hskipped]
    simp only [hunkLine, hpassed, Applier.cursor]
    cases htag : l.tag with
    | keep =>
      by_cases hread : original[s.origIdx]? = some l.read
      · simp only [hread, ne_eq]
        exact .ok ⟨rfl, rfl, hcounted⟩
      · simp only [hread, ne_eq]
        exact .error _
    | drop =>
      by_cases hread : original[s.origIdx]? = some l.read
      · simp only [hread, ne_eq]
        exact .ok ⟨rfl, rfl, hcounted⟩
      · simp only [hread, ne_eq]
        exact .error _
    | add => exact .ok ⟨rfl, hopen, hcounted⟩

/-- The line of a hunk is read with its tag, and a remark behind it is passed over. -/
theorem editLine_matches (l : DiffLine) (h : Inside s t) :
    Matches Inside (l.patchLines.foldlM (patchLine original) s) (editLine original t l) := by
  have hline : Matches Inside (patchLine original s (l.tag.char :: l.read))
      (editLine original t l) := patchLine_matches l h
  unfold DiffLine.patchLines
  split_ifs
  · simpa using hline
  · have hremark (s : Applier) (t : Cursor) (h : Inside s t) :
        Matches Inside (patchLine original s noNewline) (some t) := remark_matches h
    have hboth := hline.bind hremark
    simpa using hboth

/-- The applier does with a hunk what is done at the cursor. -/
theorem editHunk_matches {h : DiffHunk} (hformed : h.Formed) (hcursor : s.cursor = t) :
    Matches Inside (h.patchLines.foldlM (patchLine original) s) (editHunk original t h) := by
  refine (openHunk_matches hformed hcursor).bind fun s t hinside => ?_
  exact matches_foldlM_flatMap (fun l _ s t hinside => editLine_matches l hinside) hinside

theorem preamble_run {lines : List Text} (hlines : ∀ line ∈ lines, isHeader line = false)
    (s : Applier) (hhunk : s.hunk = none) :
    ∃ n, lines.foldlM (patchLine original) s = .ok { s with patchIdx := n } := by
  induction lines generalizing s with
  | nil => exact ⟨s.patchIdx, rfl⟩
  | cons line lines ih =>
    have hline : isHeader line = false := hlines line (by simp)
    have hstep : patchLine original s line = .ok { s with patchIdx := s.patchIdx + 1 } := by
      simp [patchLine, hline, hhunk]
    obtain ⟨n, hn⟩ := ih (fun next hnext => hlines next (by simp [hnext]))
      { s with patchIdx := s.patchIdx + 1 } hhunk
    refine ⟨n, ?_⟩
    rw [List.foldlM_cons, hstep]
    exact hn

/-- What is put in the file after the hunks. -/
def Cursor.finish (original : Text) (t : Cursor) : Text :=
  restoreNewline original (joinLines (t.output ++ (lines original).drop t.origIdx))

theorem applyUnifiedDiff_eq_ok {original patch c : Text} :
    applyUnifiedDiff original patch = .ok c ↔
      ∃ s, (lines patch).foldlM (patchLine (lines original)) {} = .ok s ∧
        0 < s.hunks ∧ s.cursor.finish original = c := by
  unfold applyUnifiedDiff
  dsimp only
  cases hrun : (lines patch).foldlM (patchLine (lines original)) {} with
  | error e =>
    refine iff_of_false ?_ (by simp)
    intro h
    cases h
  | ok s =>
    by_cases hhunks : s.hunks = 0
    · refine iff_of_false ?_ (by simp [hhunks])
      intro h
      simp only [Except.bind, bind, hhunks] at h
      cases h
    · simp only [Except.bind, bind, hhunks]
      have hpos : 0 < s.hunks := Nat.pos_of_ne_zero hhunks
      simp [hpos, pure, Except.pure, Cursor.finish, Applier.cursor]

/-- The applier makes of a diff what the cursor makes of its hunks. -/
theorem applyUnifiedDiff_text_iff {a b c : Text} (d : UnifiedDiff a b) :
    applyUnifiedDiff a d.text = .ok c ↔ d.hunks ≠ [] ∧
      ∃ t, d.hunks.foldlM (editHunk (lines a)) ⟨[], 0⟩ = some t ∧ t.finish a = c := by
  have hpreamble : ∀ line ∈ d.preamble.map dropReturn, isHeader line = false := by
    intro line hline
    obtain ⟨line, hmem, rfl⟩ := List.mem_map.1 hline
    have hheader := (d.noHeader line hmem).1
    simp only [isHeader, decide_eq_false_iff_not] at hheader ⊢
    rwa [prefix_dropReturn (by decide)]
  obtain ⟨n, hn⟩ : ∃ n, (d.preamble.map dropReturn).foldlM (patchLine (lines a)) {} =
      .ok { patchIdx := n } := preamble_run hpreamble {} rfl
  have hrun : (lines d.text).foldlM (patchLine (lines a)) {} =
      (d.hunks.flatMap DiffHunk.patchLines).foldlM (patchLine (lines a)) { patchIdx := n } := by
    rw [d.lines_text, List.foldlM_append, hn]
    rfl
  rw [applyUnifiedDiff_eq_ok, hrun]
  cases hhunks : d.hunks with
  | nil =>
    refine iff_of_false ?_ (by simp)
    rintro ⟨s, hs, hpos, -⟩
    cases hs
    exact absurd hpos (by simp)
  | cons h hunks =>
    have hformed : ∀ h' ∈ h :: hunks, h'.Formed := fun h' hmem => d.formed h' (by simp [hhunks, hmem])
    have hfirst : Matches Inside (h.patchLines.foldlM (patchLine (lines a)) { patchIdx := n })
        (editHunk (lines a) ⟨[], 0⟩ h) := editHunk_matches (hformed h (by simp)) rfl
    have hall : Matches Inside
        (((h :: hunks).flatMap DiffHunk.patchLines).foldlM (patchLine (lines a)) { patchIdx := n })
        ((h :: hunks).foldlM (editHunk (lines a)) ⟨[], 0⟩) := by
      rw [List.flatMap_cons, List.foldlM_append]
      refine hfirst.bind fun s t hinside => ?_
      exact matches_foldlM_flatMap (fun h' hmem s t hinside =>
        editHunk_matches (hformed h' (by simp [hmem])) hinside.cursor) hinside
    rw [hall.ok_iff (Q := fun t => t.finish a = c) fun s t hinside => by
      rw [hinside.cursor]
      exact and_iff_right hinside.counted]
    simp

end Simulation

end Codegg.FileTools
