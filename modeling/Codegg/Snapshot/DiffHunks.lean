import Codegg.Library.TextLines
import Mathlib.Data.List.DropRight

/-!
# The hunks of a file diff

The changes between two texts come one line at a time. Unchanged lines wait in a buffer:
before a change they are put into its hunk, and once there are seven of them the hunk is
closed and keeps the first four. The edit script itself is not computed here.
-/
namespace Codegg.Snapshot

open Codegg.Library


abbrev Text := List Char

inductive ChangeTag where
  | equal
  | delete
  | insert
  deriving DecidableEq, Repr

/-- A line of the edit script, with its index on each side it is on. -/
structure Change where
  tag : ChangeTag
  oldIndex : Option ℕ
  newIndex : Option ℕ
  value : Text
  deriving DecidableEq, Repr

inductive DiffKind where
  | context
  | added
  | removed
  deriving DecidableEq, Repr

structure DiffLine where
  kind : DiffKind
  content : Text
  deriving DecidableEq, Repr

structure DiffHunk where
  oldStart : ℕ
  newStart : ℕ
  lines : List DiffLine
  deriving DecidableEq, Repr

structure FileDiff where
  path : Text
  hunks : List DiffHunk
  deriving DecidableEq, Repr

def trimEnd (line : Text) : Text := line.rdropWhile isWhitespace

def kindOf : ChangeTag → DiffKind
  | .delete => .removed
  | .insert => .added
  | .equal => .context

def lineOf (change : Change) : DiffLine := ⟨kindOf change.tag, trimEnd change.value⟩

def maxContext : ℕ := 3

/-- The variables of the loop. -/
structure Scan where
  hunks : List DiffHunk
  currentHunkLines : List DiffLine
  currentOldStart : Option ℕ
  currentNewStart : Option ℕ
  contextBuffer : List DiffLine
  inChange : Bool
  deriving DecidableEq, Repr

namespace Scan

def start : Scan := ⟨[], [], none, none, [], false⟩

/-- A removed or an added line. The buffer is empty by the time that its length is
subtracted from the index. -/
def changed (s : Scan) (change : Change) : Scan where
  hunks := s.hunks
  currentHunkLines := s.currentHunkLines ++ s.contextBuffer ++ [lineOf change]
  currentOldStart :=
    if s.currentOldStart.isNone then some (change.oldIndex.getD 0 - ([] : List DiffLine).length)
    else s.currentOldStart
  currentNewStart :=
    if s.currentOldStart.isNone then some (change.newIndex.getD 0 - ([] : List DiffLine).length)
    else s.currentNewStart
  contextBuffer := []
  inChange := true

def closed (hunks : List DiffHunk) (oldStart newStart : Option ℕ) (lines : List DiffLine) :
    List DiffHunk :=
  if lines.isEmpty then hunks else hunks ++ [⟨oldStart.getD 0, newStart.getD 0, lines⟩]

/-- An unchanged line after a change. -/
def trailing (s : Scan) (change : Change) : Scan :=
  let buffer := s.contextBuffer ++ [lineOf change]
  if maxContext * 2 < buffer.length then
    let cut := buffer.length - maxContext
    ⟨closed s.hunks s.currentOldStart s.currentNewStart
      (s.currentHunkLines ++ buffer.take cut), [], none, none, buffer.drop cut, false⟩
  else { s with contextBuffer := buffer }

/-- An unchanged line before a change. -/
def leading (s : Scan) (change : Change) : Scan where
  hunks := s.hunks
  currentHunkLines := s.currentHunkLines
  currentOldStart :=
    if s.currentHunkLines.isEmpty then some (change.oldIndex.getD 0) else s.currentOldStart
  currentNewStart :=
    if s.currentHunkLines.isEmpty then some (change.newIndex.getD 0) else s.currentNewStart
  contextBuffer := s.contextBuffer ++ [lineOf change]
  inChange := s.inChange

def step (s : Scan) (change : Change) : Scan :=
  if kindOf change.tag ≠ .context then s.changed change
  else if s.inChange then s.trailing change
  else s.leading change

def finish (s : Scan) : List DiffHunk :=
  let hunks := closed s.hunks s.currentOldStart s.currentNewStart
    (s.currentHunkLines ++ s.contextBuffer)
  if hunks.isEmpty then [⟨0, 0, []⟩] else hunks

end Scan

def hunksOf (changes : List Change) : List DiffHunk := (changes.foldl Scan.step .start).finish

/-- `similar` is the edit script between two texts. -/
def diffFiles (similar : Text → Text → List Change) (old new path : Text) : List FileDiff :=
  [⟨path, hunksOf (similar old new)⟩]

/-! ### What the hunks have to be -/

/-- A correct edit script, from a place in each of the texts on. -/
inductive EditScript : ℕ → ℕ → List Change → List Text → List Text → Prop
  | done (i j : ℕ) : EditScript i j [] [] []
  | equal {i j : ℕ} {changes : List Change} {old new : List Text} (line : Text) :
    EditScript (i + 1) (j + 1) changes old new →
      EditScript i j (⟨.equal, some i, some j, line⟩ :: changes) (line :: old) (line :: new)
  | delete {i j : ℕ} {changes : List Change} {old new : List Text} (line : Text) :
    EditScript (i + 1) j changes old new →
      EditScript i j (⟨.delete, some i, none, line⟩ :: changes) (line :: old) new
  | insert {i j : ℕ} {changes : List Change} {old new : List Text} (line : Text) :
    EditScript i (j + 1) changes old new →
      EditScript i j (⟨.insert, none, some j, line⟩ :: changes) old (line :: new)

def DiffLine.isContext (line : DiffLine) : Bool := decide (line.kind = .context)

def DiffLine.isChanged (line : DiffLine) : Bool := !line.isContext

/-- The lines on the old side of a hunk. -/
def oldSide (lines : List DiffLine) : List Text :=
  (lines.filter fun line => decide (line.kind ≠ .added)).map (·.content)

def newSide (lines : List DiffLine) : List Text :=
  (lines.filter fun line => decide (line.kind ≠ .removed)).map (·.content)

/-- The unchanged lines at the start of a list, and at its end. -/
def leadingContext (lines : List DiffLine) : ℕ := (lines.takeWhile (·.isContext)).length

def trailingContext (lines : List DiffLine) : ℕ := (lines.rtakeWhile (·.isContext)).length

/-- The lines of a side are those of its text from a place on; lines are shown without the
white space at their end. -/
def FromPlace (text : List Text) (start : ℕ) (side : List Text) : Prop :=
  side = ((text.map trimEnd).drop start).take side.length

structure WellPlaced (old new : List Text) (hunk : DiffHunk) : Prop where
  old : FromPlace old hunk.oldStart (oldSide hunk.lines)
  new : FromPlace new hunk.newStart (newSide hunk.lines)
  leading : leadingContext hunk.lines ≤ maxContext
  trailing : trailingContext hunk.lines ≤ maxContext

/-- Changes as the lines of a hunk show them. -/
abbrev shown (changes : List Change) : List DiffLine := changes.map lineOf

/-- Every added and every removed line once and in order, and every hunk in its place. -/
structure HunksPlaced (old new : List Text) (changes : List Change) (hunks : List DiffHunk) :
    Prop where
  changed : hunks.flatMap (fun hunk => hunk.lines.filter (·.isChanged)) =
    (shown changes).filter (·.isChanged)
  placed : ∀ hunk ∈ hunks, WellPlaced old new hunk

/-- No seven unchanged lines in a row after a change. -/
def ShortGaps (changes : List Change) : Prop :=
  ∀ earlier, earlier <+: changes → (∃ line ∈ shown earlier, line.isChanged = true) →
    trailingContext (shown earlier) ≤ 2 * maxContext

/-- At most one unchanged line before the first change, at most six after any change and
at most three at the end. -/
structure Compact (changes : List Change) : Prop where
  leading : leadingContext (shown changes) ≤ 1
  gaps : ShortGaps changes
  trailing : trailingContext (shown changes) ≤ maxContext

/-! ### Runs of unchanged lines -/

attribute [local simp] Scan.changed lineOf kindOf

section

variable {ls : List DiffLine} {line : DiffLine}

theorem isChanged_iff : line.isChanged = true ↔ ¬line.isContext = true := by
  simp [DiffLine.isChanged]

/-- A changed line ends the lines a list begins with. -/
theorem leadingContext_append (h : ∃ line ∈ ls, line.isChanged = true) (ms : List DiffLine) :
    leadingContext (ls ++ ms) = leadingContext ls := by
  obtain ⟨line, hline, hchanged⟩ := h
  unfold leadingContext
  rw [List.takeWhile_append]
  split
  · rename_i hlength
    have hall : ls.takeWhile (·.isContext) = ls :=
      (List.takeWhile_prefix _).eq_of_length hlength
    have hcontext := List.takeWhile_eq_self_iff.mp hall line hline
    exact absurd hcontext (isChanged_iff.mp hchanged)
  · rfl

theorem leadingContext_of_context (h : ∀ line ∈ ls, line.isContext = true) :
    leadingContext ls = ls.length := by
  rw [leadingContext, List.takeWhile_eq_self_iff.mpr h]

theorem leadingContext_concat (h : ∀ line ∈ ls, line.isContext = true)
    (hline : line.isChanged = true) : leadingContext (ls ++ [line]) = ls.length := by
  rw [leadingContext, List.takeWhile_append_of_pos h,
    List.takeWhile_cons_of_neg (isChanged_iff.mp hline), List.append_nil]

theorem trailingContext_concat (hline : line.isContext = true) :
    trailingContext (ls ++ [line]) = trailingContext ls + 1 := by
  rw [trailingContext, List.rtakeWhile_concat_pos _ _ _ hline, List.length_append]
  rfl

theorem trailingContext_changed (hline : line.isChanged = true) :
    trailingContext (ls ++ [line]) = 0 := by
  rw [trailingContext, List.rtakeWhile_concat_neg _ _ _ (isChanged_iff.mp hline)]
  rfl

theorem trailingContext_le (ls : List DiffLine) : trailingContext ls ≤ ls.length :=
  (List.rtakeWhile_suffix _ _).length_le

theorem length_le_trailingContext (ls : List DiffLine) {ms : List DiffLine}
    (h : ∀ line ∈ ms, line.isContext = true) : ms.length ≤ trailingContext (ls ++ ms) := by
  induction ms using List.reverseRecOn with
  | nil => exact Nat.zero_le _
  | append_singleton ms line ih =>
    have hms := ih fun m hm => h m (List.mem_append_left _ hm)
    rw [← List.append_assoc, trailingContext_concat (h line (by simp)), List.length_append]
    exact Nat.add_le_add_right hms 1

end

/-! ### Indices of the edit script -/

theorem lineOf_isContext {change : Change} :
    (lineOf change).isContext = true ↔ change.tag = .equal := by
  cases h : change.tag <;> simp [DiffLine.isContext, h]

variable {i j : ℕ} {old new : List Text} {changes : List Change}

/-- Behind unchanged lines the two sides are still in step. -/
theorem EditScript.index {before after : List Change} {change : Change}
    (h : EditScript i j (before ++ change :: after) old new)
    (hbefore : ∀ c ∈ before, c.tag = .equal) :
    (change.oldIndex = some (i + before.length) ∨
        change.oldIndex = none ∧ change.tag = .insert) ∧
      (change.newIndex = some (j + before.length) ∨
        change.newIndex = none ∧ change.tag = .delete) := by
  induction before generalizing i j old new with
  | nil =>
    cases h with
    | equal line _ => exact ⟨.inl rfl, .inl rfl⟩
    | delete line _ => exact ⟨.inl rfl, .inr ⟨rfl, rfl⟩⟩
    | insert line _ => exact ⟨.inr ⟨rfl, rfl⟩, .inl rfl⟩
  | cons c before ih =>
    have hrest := fun d hd => hbefore d (List.mem_cons_of_mem _ hd)
    have hlength : ∀ k, k + 1 + before.length = k + (c :: before).length := fun k => by
      rw [List.length_cons]
      omega
    cases h with
    | equal line h => simpa only [hlength] using ih h hrest
    | delete line h => cases hbefore _ List.mem_cons_self
    | insert line h => cases hbefore _ List.mem_cons_self

theorem EditScript.oldSide (h : EditScript i j changes old new) :
    oldSide (changes.map lineOf) = old.map trimEnd := by
  induction h with
  | done => rfl
  | equal line _ ih => simpa [Snapshot.oldSide] using ih
  | delete line _ ih => simpa [Snapshot.oldSide] using ih
  | insert line _ ih => simpa [Snapshot.oldSide] using ih

theorem EditScript.newSide (h : EditScript i j changes old new) :
    newSide (changes.map lineOf) = new.map trimEnd := by
  induction h with
  | done => rfl
  | equal line _ ih => simpa [Snapshot.newSide] using ih
  | delete line _ ih => simpa [Snapshot.newSide] using ih
  | insert line _ ih => simpa [Snapshot.newSide] using ih

/-! ### The loop -/

/-- Before the first change. -/
structure Leading (before : List Change) (s : Scan) : Prop where
  context : ∀ line ∈ shown before, line.isContext = true
  state : s = ⟨[], [], if before = [] then none else some (before.length - 1),
    if before = [] then none else some (before.length - 1), shown before, false⟩

/-- In the first hunk, which has all lines so far. -/
structure InHunk (before : List Change) (s : Scan) : Prop where
  hunks : s.hunks = []
  lines : s.currentHunkLines ++ s.contextBuffer = shown before
  oldStart : s.currentOldStart = some (leadingContext (shown before) - 1)
  newStart : s.currentNewStart = some (leadingContext (shown before) - 1)
  buffer : s.contextBuffer.length = trailingContext (shown before)
  waiting : ∀ line ∈ s.contextBuffer, line.isContext = true
  inChange : s.inChange = true
  changed : ∃ line ∈ shown before, line.isChanged = true
  gaps : ShortGaps before

/-- A hunk is closed, with four unchanged lines at its end. -/
structure Closed (before : List Change) (s : Scan) : Prop where
  gaps : ¬ShortGaps before
  hunk : ∃ hunk ∈ s.hunks, maxContext < trailingContext hunk.lines

inductive Phase (before : List Change) (s : Scan) : Prop
  | leading (h : Leading before s)
  | inHunk (h : InHunk before s)
  | closed (h : Closed before s)

section

variable {before : List Change} {s : Scan} {change : Change}

theorem shown_concat (before : List Change) (change : Change) :
    shown (before ++ [change]) = shown before ++ [lineOf change] := by
  simp [shown]

theorem closed_of_ne_nil {lines : List DiffLine} (h : lines ≠ []) (hunks : List DiffHunk)
    (oldStart newStart : Option ℕ) : Scan.closed hunks oldStart newStart lines =
      hunks ++ [⟨oldStart.getD 0, newStart.getD 0, lines⟩] :=
  if_neg (by simpa using h)

theorem mem_closed {hunk : DiffHunk} {hunks : List DiffHunk} (h : hunk ∈ hunks)
    (oldStart newStart : Option ℕ) (lines : List DiffLine) :
    hunk ∈ Scan.closed hunks oldStart newStart lines := by
  unfold Scan.closed
  split
  · exact h
  · exact List.mem_append_left _ h

theorem mem_finish {hunk : DiffHunk} (h : hunk ∈ s.hunks) : hunk ∈ s.finish := by
  have hmem := mem_closed h s.currentOldStart s.currentNewStart
    (s.currentHunkLines ++ s.contextBuffer)
  unfold Scan.finish
  dsimp only
  split
  · rename_i hempty
    rw [List.isEmpty_iff.mp hempty] at hmem
    cases hmem
  · exact hmem

theorem kindOf_eq_context : kindOf change.tag = .context ↔ (lineOf change).isContext = true := by
  rw [DiffLine.isContext, decide_eq_true_iff]
  rfl

theorem step_changed (h : (lineOf change).isChanged = true) : s.step change = s.changed change := by
  have hkind : kindOf change.tag ≠ .context := fun hk =>
    isChanged_iff.mp h (kindOf_eq_context.mp hk)
  rw [Scan.step, if_pos hkind]

theorem step_trailing (h : (lineOf change).isContext = true) (hin : s.inChange = true) :
    s.step change = s.trailing change := by
  rw [Scan.step, if_neg (not_not.mpr (kindOf_eq_context.mpr h)), if_pos hin]

theorem step_leading (h : (lineOf change).isContext = true) (hin : s.inChange = false) :
    s.step change = s.leading change := by
  rw [Scan.step, if_neg (not_not.mpr (kindOf_eq_context.mpr h)), if_neg (by simp [hin])]

theorem ShortGaps.concat (h : ShortGaps before)
    (hlast : (∃ line ∈ shown (before ++ [change]), line.isChanged = true) →
      trailingContext (shown (before ++ [change])) ≤ 2 * maxContext) :
    ShortGaps (before ++ [change]) := by
  intro earlier hpre hchanged
  rcases List.prefix_concat_iff.mp hpre with rfl | hpre
  · exact hlast hchanged
  · exact h earlier hpre hchanged

theorem shortGaps_of_context (h : ∀ line ∈ shown before, line.isContext = true) :
    ShortGaps before := by
  rintro earlier hpre ⟨line, hline, hchanged⟩
  have hmem : line ∈ shown before := (hpre.map lineOf).subset hline
  exact absurd (h line hmem) (isChanged_iff.mp hchanged)

/-- Another unchanged line before the first change. -/
theorem Leading.wait (h : Leading before s) (hline : (lineOf change).isContext = true)
    (hold : change.oldIndex = some before.length) (hnew : change.newIndex = some before.length) :
    Leading (before ++ [change]) (s.step change) where
  context line hmem := by
    rw [shown_concat] at hmem
    rcases List.mem_append.mp hmem with hmem | hmem
    · exact h.context line hmem
    · rwa [List.mem_singleton.mp hmem]
  state := by
    obtain rfl := h.state
    rw [step_leading hline rfl, Scan.leading]
    simp [hold, hnew]

/-- The first change. -/
theorem Leading.turn (h : Leading before s) (hline : (lineOf change).isChanged = true)
    (hold : before = [] → change.oldIndex.getD 0 = 0)
    (hnew : before = [] → change.newIndex.getD 0 = 0) :
    InHunk (before ++ [change]) (s.step change) := by
  obtain rfl := h.state
  have hleading : leadingContext (shown (before ++ [change])) = before.length := by
    rw [shown_concat, leadingContext_concat h.context hline, List.length_map]
  have htrailing : trailingContext (shown (before ++ [change])) = 0 := by
    rw [shown_concat, trailingContext_changed hline]
  rw [step_changed hline]
  refine ⟨rfl, ?_, ?_, ?_, htrailing.symm, (fun _ hmem => nomatch hmem), rfl,
    ⟨lineOf change, by simp, hline⟩, (shortGaps_of_context h.context).concat ?_⟩
  · simp
  · rw [hleading]
    by_cases hempty : before = []
    · simp [hempty, hold hempty]
    · simp [hempty]
  · rw [hleading]
    by_cases hempty : before = []
    · simp [hempty, hnew hempty]
    · simp [hempty]
  · omega

theorem InHunk.turn (h : InHunk before s) (hline : (lineOf change).isChanged = true) :
    InHunk (before ++ [change]) (s.step change) := by
  have hleading : leadingContext (shown (before ++ [change])) = leadingContext (shown before) := by
    rw [shown_concat, leadingContext_append h.changed]
  have htrailing : trailingContext (shown (before ++ [change])) = 0 := by
    rw [shown_concat, trailingContext_changed hline]
  rw [step_changed hline]
  refine ⟨h.hunks, ?_, ?_, ?_, htrailing.symm, (fun _ hmem => nomatch hmem), rfl,
    ⟨lineOf change, by simp, hline⟩, h.gaps.concat ?_⟩
  · rw [shown_concat, ← h.lines]
    simp
  · rw [hleading]
    simp [h.oldStart]
  · rw [hleading]
    simp [h.oldStart, h.newStart]
  · omega

/-- An unchanged line after a change: it waits, or closes the hunk. -/
theorem InHunk.wait (h : InHunk before s) (hline : (lineOf change).isContext = true) :
    InHunk (before ++ [change]) (s.step change) ∨ Closed (before ++ [change]) (s.step change) := by
  have hchanged : ∃ line ∈ shown (before ++ [change]), line.isChanged = true := by
    obtain ⟨line, hmem, hc⟩ := h.changed
    exact ⟨line, by rw [shown_concat]; exact List.mem_append_left _ hmem, hc⟩
  have hleading : leadingContext (shown (before ++ [change])) = leadingContext (shown before) := by
    rw [shown_concat, leadingContext_append h.changed]
  have htrailing : trailingContext (shown (before ++ [change])) = s.contextBuffer.length + 1 := by
    rw [shown_concat, trailingContext_concat hline, h.buffer]
  have hwaiting : ∀ line ∈ s.contextBuffer ++ [lineOf change], line.isContext = true := by
    intro line hmem
    rcases List.mem_append.mp hmem with hmem | hmem
    · exact h.waiting line hmem
    · rwa [List.mem_singleton.mp hmem]
  rw [step_trailing hline h.inChange, Scan.trailing]
  set buffer := s.contextBuffer ++ [lineOf change] with hbuffer
  have hlength : buffer.length = s.contextBuffer.length + 1 := by simp [hbuffer]
  dsimp only
  split
  · refine .inr ⟨fun hgaps => ?_, ?_⟩
    · have hshort := hgaps _ (List.prefix_refl _) hchanged
      omega
    · have hcut : maxContext < (buffer.take (buffer.length - maxContext)).length := by
        rw [List.length_take]
        omega
      have hkept : ∀ line ∈ buffer.take (buffer.length - maxContext), line.isContext = true :=
        fun line hmem => hwaiting line (List.mem_of_mem_take hmem)
      have hne : s.currentHunkLines ++ buffer.take (buffer.length - maxContext) ≠ [] := by
        intro hnil
        rw [(List.append_eq_nil_iff.mp hnil).2] at hcut
        cases hcut
      refine ⟨⟨s.currentOldStart.getD 0, s.currentNewStart.getD 0,
        s.currentHunkLines ++ buffer.take (buffer.length - maxContext)⟩, ?_,
        hcut.trans_le (length_le_trailingContext s.currentHunkLines hkept)⟩
      rw [closed_of_ne_nil hne]
      exact List.mem_append_right _ List.mem_cons_self
  · refine .inl ⟨h.hunks, ?_, ?_, ?_, ?_, hwaiting, h.inChange, hchanged, h.gaps.concat ?_⟩
    · rw [shown_concat, ← h.lines, List.append_assoc]
    · rw [hleading]
      exact h.oldStart
    · rw [hleading]
      exact h.newStart
    · rw [htrailing, hlength]
    · omega

/-- A closed hunk stays. -/
theorem Closed.turn (h : Closed before s) (change : Change) :
    Closed (before ++ [change]) (s.step change) := by
  refine ⟨fun hgaps => h.gaps fun earlier hpre => ?_, ?_⟩
  · exact hgaps earlier (hpre.trans (List.prefix_append _ _))
  · obtain ⟨hunk, hmem, hlong⟩ := h.hunk
    refine ⟨hunk, ?_, hlong⟩
    unfold Scan.step
    split
    · exact hmem
    split
    · unfold Scan.trailing
      dsimp only
      split
      · exact mem_closed hmem _ _ _
      · exact hmem
    · exact hmem

end

/-- The loop, up to any of the changes. -/
theorem EditScript.phase (h : EditScript 0 0 changes old new) {before after : List Change}
    (heq : changes = before ++ after) : Phase before (before.foldl Scan.step .start) := by
  induction before using List.reverseRecOn generalizing after with
  | nil => exact .leading ⟨(fun _ hmem => nomatch hmem), rfl⟩
  | append_singleton before change ih =>
    have hscript : changes = before ++ change :: after := by rw [heq]; simp
    rw [List.foldl_append]
    by_cases hline : (lineOf change).isContext = true
    · cases ih hscript with
      | leading hleading =>
        have htags : ∀ c ∈ before, c.tag = .equal := fun c hc =>
          lineOf_isContext.mp (hleading.context _ (List.mem_map_of_mem hc))
        obtain ⟨hold, hnew⟩ := EditScript.index (hscript ▸ h) htags
        have htag := lineOf_isContext.mp hline
        have hold' : change.oldIndex = some before.length := by simpa [htag] using hold
        have hnew' : change.newIndex = some before.length := by simpa [htag] using hnew
        exact .leading (hleading.wait hline hold' hnew')
      | inHunk hin =>
        rcases hin.wait hline with hin | hclosed
        · exact .inHunk hin
        · exact .closed hclosed
      | closed hclosed => exact .closed (hclosed.turn change)
    · have hchanged : (lineOf change).isChanged = true := isChanged_iff.mpr hline
      cases ih hscript with
      | leading hleading =>
        have hindex : before = [] → change.oldIndex.getD 0 = 0 ∧ change.newIndex.getD 0 = 0 := by
          rintro rfl
          have htags : ∀ c ∈ ([] : List Change), c.tag = .equal := fun _ hmem => nomatch hmem
          obtain ⟨hold, hnew⟩ := EditScript.index (hscript ▸ h) htags
          constructor
          · rcases hold with hold | ⟨hold, -⟩ <;> simp [hold]
          · rcases hnew with hnew | ⟨hnew, -⟩ <;> simp [hnew]
        exact .inHunk (hleading.turn hchanged (fun hb => (hindex hb).1) fun hb => (hindex hb).2)
      | inHunk hin => exact .inHunk (hin.turn hchanged)
      | closed hclosed => exact .closed (hclosed.turn change)

/-! ### The hunks -/

/-- Without a long gap there is one hunk, of all the lines. -/
def wholeHunk (changes : List Change) : DiffHunk :=
  ⟨leadingContext (shown changes) - 1, leadingContext (shown changes) - 1, shown changes⟩

theorem hunksOf_of_shortGaps (h : EditScript 0 0 changes old new) (hgaps : ShortGaps changes) :
    hunksOf changes = [wholeHunk changes] := by
  unfold hunksOf
  cases h.phase (List.append_nil changes).symm with
  | leading hleading =>
    rw [hleading.state]
    cases changes with
    | nil => rfl
    | cons change changes =>
      rw [wholeHunk, leadingContext_of_context hleading.context, List.length_map]
      rfl
  | inHunk hin =>
    have hne : shown changes ≠ [] := by
      obtain ⟨line, hmem, -⟩ := hin.changed
      exact List.ne_nil_of_mem hmem
    rw [Scan.finish, hin.lines, hin.hunks, hin.oldStart, hin.newStart, closed_of_ne_nil hne]
    rfl
  | closed hclosed => exact absurd hgaps hclosed.gaps

theorem hunksOf_of_longGap (h : EditScript 0 0 changes old new) (hgap : ¬ShortGaps changes) :
    ∃ hunk ∈ hunksOf changes, maxContext < trailingContext hunk.lines := by
  cases h.phase (List.append_nil changes).symm with
  | leading hleading => exact absurd (shortGaps_of_context hleading.context) hgap
  | inHunk hin => exact absurd hin.gaps hgap
  | closed hclosed =>
    obtain ⟨hunk, hmem, hlong⟩ := hclosed.hunk
    exact ⟨hunk, mem_finish hmem, hlong⟩

/-- A text is found from a place on only if that is its start. -/
theorem fromPlace_self {text : List Text} {start : ℕ} :
    FromPlace text start (text.map trimEnd) ↔ start = 0 ∨ text = [] := by
  unfold FromPlace
  constructor
  · intro h
    have hlength := congrArg List.length h
    simp only [List.length_take, List.length_drop, List.length_map] at hlength
    have hcases : start = 0 ∨ text.length = 0 := by omega
    exact hcases.imp_right List.eq_nil_of_length_eq_zero
  · rintro (rfl | rfl) <;> simp

theorem leadingContext_le_oldSide (ls : List DiffLine) :
    leadingContext ls ≤ (oldSide ls).length := by
  induction ls with
  | nil => exact Nat.le_refl 0
  | cons line ls ih =>
    by_cases hline : line.isContext = true
    · have hkind : line.kind = .context := of_decide_eq_true hline
      have hleading : leadingContext (line :: ls) = leadingContext ls + 1 := by
        simp [leadingContext, hline]
      have hside : (oldSide (line :: ls)).length = (oldSide ls).length + 1 := by
        simp [oldSide, hkind]
      omega
    · have hleading : leadingContext (line :: ls) = 0 := by simp [leadingContext, hline]
      omega

theorem wholeHunk_placed_iff (h : EditScript 0 0 changes old new) :
    WellPlaced old new (wholeHunk changes) ↔
      leadingContext (shown changes) ≤ 1 ∧ trailingContext (shown changes) ≤ maxContext := by
  constructor
  · intro hplaced
    refine ⟨?_, hplaced.trailing⟩
    have hold : FromPlace old (leadingContext (shown changes) - 1) (old.map trimEnd) := by
      rw [← h.oldSide]
      exact hplaced.old
    rcases fromPlace_self.mp hold with hzero | rfl
    · omega
    · have hle := leadingContext_le_oldSide (shown changes)
      rw [h.oldSide] at hle
      exact hle.trans (Nat.zero_le 1)
  · rintro ⟨hleading, htrailing⟩
    have hstart : leadingContext (shown changes) - 1 = 0 := by omega
    refine ⟨?_, ?_, hleading.trans (by decide), htrailing⟩
    · show FromPlace old (leadingContext (shown changes) - 1) (oldSide (shown changes))
      rw [h.oldSide]
      exact fromPlace_self.mpr (.inl hstart)
    · show FromPlace new (leadingContext (shown changes) - 1) (newSide (shown changes))
      rw [h.newSide]
      exact fromPlace_self.mpr (.inl hstart)

theorem hunksPlaced_iff (h : EditScript 0 0 changes old new) :
    HunksPlaced old new changes (hunksOf changes) ↔ Compact changes := by
  by_cases hgaps : ShortGaps changes
  · rw [hunksOf_of_shortGaps h hgaps]
    constructor
    · intro hplaced
      have hwhole := (wholeHunk_placed_iff h).mp (hplaced.placed _ List.mem_cons_self)
      exact ⟨hwhole.1, hgaps, hwhole.2⟩
    · intro hcompact
      refine ⟨by simp [wholeHunk], fun hunk hmem => ?_⟩
      rw [List.mem_singleton.mp hmem]
      exact (wholeHunk_placed_iff h).mpr ⟨hcompact.leading, hcompact.trailing⟩
  · constructor
    · intro hplaced
      obtain ⟨hunk, hmem, hlong⟩ := hunksOf_of_longGap h hgaps
      exact absurd (hplaced.placed hunk hmem).trailing (not_le.mpr hlong)
    · intro hcompact
      exact absurd hcompact.gaps hgaps

/-- The hunks of a diff are well placed exactly if the changes lie close together and to
both ends of the text, whatever correct edit script there is. -/
theorem diffFiles_placed_iff (similar : Text → Text → List Change) (lines : Text → List Text)
    (hsimilar : ∀ old new, EditScript 0 0 (similar old new) (lines old) (lines new))
    (old new path : Text) :
    (∀ diff ∈ diffFiles similar old new path,
      HunksPlaced (lines old) (lines new) (similar old new) diff.hunks) ↔
      Compact (similar old new) := by
  rw [← hunksPlaced_iff (hsimilar old new)]
  simp [diffFiles]

/-! ### An edit script -/

def insertAll : ℕ → List Text → List Change
  | _, [] => []
  | j, line :: new => ⟨.insert, none, some j, line⟩ :: insertAll (j + 1) new

/-- Keeps a line that comes next on both sides, and removes one that does not. -/
def keepInStep : ℕ → ℕ → List Text → List Text → List Change
  | _, j, [], new => insertAll j new
  | i, j, line :: old, [] => ⟨.delete, some i, none, line⟩ :: keepInStep (i + 1) j old []
  | i, j, line :: old, line' :: new =>
    if line = line' then ⟨.equal, some i, some j, line⟩ :: keepInStep (i + 1) (j + 1) old new
    else ⟨.delete, some i, none, line⟩ :: keepInStep (i + 1) j old (line' :: new)

theorem insertAll_editScript (i j : ℕ) (new : List Text) :
    EditScript i j (insertAll j new) [] new := by
  induction new generalizing j with
  | nil => exact .done i j
  | cons line new ih => exact .insert line (ih (j + 1))

theorem keepInStep_editScript (i j : ℕ) (old new : List Text) :
    EditScript i j (keepInStep i j old new) old new := by
  induction old generalizing i j new with
  | nil => exact insertAll_editScript i j new
  | cons line old ih =>
    cases new with
    | nil => exact .delete line (ih (i + 1) j [])
    | cons line' new =>
      rw [keepInStep]
      split
      · rename_i heq
        subst heq
        exact .equal line (ih (i + 1) (j + 1) new)
      · exact .delete line (ih (i + 1) j (line' :: new))

def similarInStep (old new : Text) : List Change :=
  keepInStep 0 0 (splitInclusive old) (splitInclusive new)

theorem diffFiles_placed_context :
    diffFiles similarInStep "a\nb\n".toList "a\nc\n".toList "f".toList ≠ [] ∧
    ∀ diff ∈ diffFiles similarInStep "a\nb\n".toList "a\nc\n".toList "f".toList,
      HunksPlaced (splitInclusive "a\nb\n".toList) (splitInclusive "a\nc\n".toList)
        (similarInStep "a\nb\n".toList "a\nc\n".toList) diff.hunks := by
  refine ⟨by decide, (diffFiles_placed_iff similarInStep splitInclusive
    (fun old new => keepInStep_editScript 0 0 _ _) _ _ _).mpr ⟨by decide, ?_, by decide⟩⟩
  intro earlier hpre _
  have hlength : (shown earlier).length ≤ 3 := (hpre.map lineOf).length_le
  exact ((trailingContext_le _).trans hlength).trans (by decide)

/-- Two unchanged lines come before the change, and the hunk is said to start at the second. -/
theorem diffFiles_misplaced :
    ¬∀ diff ∈ diffFiles similarInStep "a\nb\nc\n".toList "a\nb\nd\n".toList "f".toList,
      HunksPlaced (splitInclusive "a\nb\nc\n".toList) (splitInclusive "a\nb\nd\n".toList)
        (similarInStep "a\nb\nc\n".toList "a\nb\nd\n".toList) diff.hunks := by
  intro h
  have hplaced := (hunksPlaced_iff (keepInStep_editScript 0 0 _ _)).mp (h _ List.mem_cons_self)
  exact absurd hplaced.leading (by decide)

end Codegg.Snapshot
