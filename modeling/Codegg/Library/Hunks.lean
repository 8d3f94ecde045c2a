import Codegg.Library.ByteText

/-!
# Replacing several byte ranges of a text

A replacement names a byte range of a text and the text that takes its place. Replacements
that are in order, disjoint and cut no character split the text into hunks: a part that is
kept, a part that is replaced, and its replacement. The text before and the text after are
read off the hunks, and exchanging old and new parts exchanges the two texts.
-/
namespace Codegg.Library

structure Replacement where
  start : ℕ
  stop : ℕ
  insert : List Char
  deriving DecidableEq, Repr

/-- A kept part of a text, and the old and the new part behind it. -/
structure Hunk where
  kept : List Char
  old : List Char
  new : List Char
  deriving DecidableEq, Repr

namespace Hunk

def swap (h : Hunk) : Hunk := ⟨h.kept, h.new, h.old⟩

/-- The text before the replacements. -/
def before (tail : List Char) : List Hunk → List Char
  | [] => tail
  | h :: hs => h.kept ++ h.old ++ before tail hs

/-- The text after the replacements. -/
def after (tail : List Char) : List Hunk → List Char
  | [] => tail
  | h :: hs => h.kept ++ h.new ++ after tail hs

/-- The replacements in byte ranges of the text before them, from a position on. -/
def replacements : ℕ → List Hunk → List Replacement
  | _, [] => []
  | pos, h :: hs =>
    let start := pos + byteLen h.kept
    let stop := start + byteLen h.old
    ⟨start, stop, h.new⟩ :: replacements stop hs

@[simp] theorem before_swap (tail : List Char) (hs : List Hunk) :
    before tail (hs.map swap) = after tail hs := by
  induction hs with
  | nil => rfl
  | cons h hs ih => simp [before, after, swap, ih]

@[simp] theorem after_swap (tail : List Char) (hs : List Hunk) :
    after tail (hs.map swap) = before tail hs := by
  induction hs with
  | nil => rfl
  | cons h hs ih => simp [before, after, swap, ih]

end Hunk

/-- The ranges are in order from a position on, do not overlap and cut no character. -/
def Fits (text : List Char) : ℕ → List Replacement → Prop
  | _, [] => True
  | pos, r :: rs =>
    pos ≤ r.start ∧ r.start ≤ r.stop ∧ isCharBoundary r.start text = true ∧
      isCharBoundary r.stop text = true ∧ Fits text r.stop rs

/-- All ranges replaced at once: the parts between them, each with what is inserted. -/
def replaceAtOnce (text : List Char) : ℕ → List Replacement → List Char
  | pos, [] => dropBytes pos text
  | pos, r :: rs =>
    dropBytes pos (takeBytes r.start text) ++ r.insert ++ replaceAtOnce text r.stop rs

/-- The ranges replaced one after another, the last one first. -/
def replaceFromLast (rs : List Replacement) (text : List Char) : List Char :=
  rs.foldr (fun r t => replaceBytes t r.start r.stop r.insert) text

section

open Hunk

variable {tail : List Char} {hs : List Hunk}

/-- The hunks of a text whose first part has been gone through. -/
theorem exists_hunks {rs : List Replacement} (done : List Char) {rest : List Char}
    (h : Fits (done ++ rest) (byteLen done) rs) :
    ∃ hs tail, rest = before tail hs ∧ rs = replacements (byteLen done) hs := by
  induction rs generalizing done rest with
  | nil => exact ⟨[], rest, rfl, rfl⟩
  | cons r rs ih =>
    obtain ⟨hpos, hrange, hstart, hstop, hrs⟩ := h
    obtain ⟨left, right, hcutStart, hstartLen⟩ := exists_append_of_isCharBoundary hstart
    obtain ⟨upTo, behind, hcutStop, hstopLen⟩ := exists_append_of_isCharBoundary hstop
    obtain ⟨kept, hkept, hrest⟩ := exists_append_of_byteLen_le hcutStart (by omega)
    obtain ⟨old, hold, hright⟩ :=
      exists_append_of_byteLen_le (hcutStart.symm.trans hcutStop) (by omega)
    rw [hcutStop, hstopLen] at hrs
    obtain ⟨hs, tail, hbehind, hreplacements⟩ := ih upTo hrs
    have hstart' : r.start = byteLen done + byteLen kept := by
      rw [hstartLen, hkept, byteLen_append]
    have hstop' : r.stop = byteLen done + byteLen kept + byteLen old := by
      rw [hstopLen, hold, hkept, byteLen_append, byteLen_append]
    refine ⟨⟨kept, old, r.insert⟩ :: hs, tail, ?_, ?_⟩
    · rw [hrest, hright, hbehind, before, List.append_assoc]
    · have hfirst : r = ⟨byteLen done + byteLen kept,
          byteLen done + byteLen kept + byteLen old, r.insert⟩ := by
        rw [← hstop', ← hstart']
      rw [← hstopLen, hstop'] at hreplacements
      exact congrArg₂ List.cons hfirst hreplacements

theorem fits_replacements (done : List Char) :
    Fits (done ++ before tail hs) (byteLen done) (replacements (byteLen done) hs) := by
  induction hs generalizing done with
  | nil => trivial
  | cons h hs ih =>
    have hkept := isCharBoundary_byteLen_append (done ++ h.kept) (h.old ++ before tail hs)
    have hold := isCharBoundary_byteLen_append (done ++ h.kept ++ h.old) (before tail hs)
    have hrest := ih (done ++ h.kept ++ h.old)
    simp only [byteLen_append, List.append_assoc] at hkept hold hrest
    simp only [before, replacements, Fits, List.append_assoc]
    refine ⟨by omega, by omega, hkept, ?_, ?_⟩
    · rwa [Nat.add_assoc]
    · rwa [Nat.add_assoc]

theorem replaceFromLast_replacements (done : List Char) :
    replaceFromLast (replacements (byteLen done) hs) (done ++ before tail hs) =
      done ++ after tail hs := by
  induction hs generalizing done with
  | nil => rfl
  | cons h hs ih =>
    have hrest := ih (done ++ h.kept ++ h.old)
    have hfirst := replaceBytes_append_append (done ++ h.kept) h.old (after tail hs) h.new
    simp only [byteLen_append, List.append_assoc] at hrest hfirst
    simp only [replaceFromLast, before, after, replacements, List.foldr_cons,
      List.append_assoc] at hrest ⊢
    rw [Nat.add_assoc, hrest, hfirst]

theorem replaceAtOnce_replacements (done : List Char) :
    replaceAtOnce (done ++ before tail hs) (byteLen done) (replacements (byteLen done) hs) =
      after tail hs := by
  induction hs generalizing done with
  | nil => simp [before, after, replacements, replaceAtOnce]
  | cons h hs ih =>
    have hrest := ih (done ++ h.kept ++ h.old)
    have hcut := takeBytes_byteLen_append (done ++ h.kept) (h.old ++ before tail hs)
    simp only [byteLen_append, List.append_assoc] at hrest hcut
    simp only [before, after, replacements, replaceAtOnce, List.append_assoc]
    rw [hcut, dropBytes_byteLen_append, Nat.add_assoc, hrest]

/-- Replacing the ranges from the last to the first replaces them all at once. -/
theorem replaceFromLast_eq {rs : List Replacement} {text : List Char} (h : Fits text 0 rs) :
    replaceFromLast rs text = replaceAtOnce text 0 rs := by
  obtain ⟨hs, tail, rfl, rfl⟩ := exists_hunks [] h
  exact (replaceFromLast_replacements []).trans (replaceAtOnce_replacements []).symm

/-- What the exchanged replacements insert is what these remove. -/
theorem sum_insert_swap (pos pos' : ℕ) :
    ((replacements pos' (hs.map swap)).map fun r => byteLen r.insert).sum =
      ((replacements pos hs).map fun r => r.stop - r.start).sum := by
  induction hs generalizing pos pos' with
  | nil => rfl
  | cons h hs ih =>
    have hrest := ih (pos + byteLen h.kept + byteLen h.old) (pos' + byteLen h.kept + byteLen h.new)
    simp only [replacements, swap, List.map_cons, List.sum_cons] at hrest ⊢
    omega

theorem sum_removed_swap (pos pos' : ℕ) :
    ((replacements pos' (hs.map swap)).map fun r => r.stop - r.start).sum =
      ((replacements pos hs).map fun r => byteLen r.insert).sum := by
  have hback : (hs.map swap).map swap = hs := by simp [Function.comp_def, swap]
  rw [← sum_insert_swap pos' pos, hback]

theorem length_replacements (pos : ℕ) : (replacements pos hs).length = hs.length := by
  induction hs generalizing pos with
  | nil => rfl
  | cons h hs ih => simp [replacements, ih]

end

end Codegg.Library
