import Mathlib.Data.List.Infix
import Mathlib.Tactic

/-!
# Texts with pieces rewritten

Some pieces of a text give way to others. Where the new text leaves the old one is known by
what stands before that place, and the number of neighbours of a kind never grows when each
new piece has no more of them and adds none at its ends.
-/
namespace Codegg.Library

variable {α : Type*}

/-! ### Where two texts part -/

/-- The lists are the same up to the end of `front` and differ in what comes next. -/
def PartAfter (front l l' : List α) : Prop :=
  ∃ rest rest', l = front ++ rest ∧ l' = front ++ rest' ∧ rest.head? ≠ rest'.head?

namespace PartAfter

variable {front front' l l' : List α}

theorem ne (h : PartAfter front l l') : l ≠ l' := by
  rintro rfl
  obtain ⟨rest, rest', hl, hl', hne⟩ := h
  exact hne (congrArg List.head? (List.append_cancel_left (hl.symm.trans hl')))

theorem symm (h : PartAfter front l l') : PartAfter front l' l := by
  obtain ⟨rest, rest', hl, hl', hne⟩ := h
  exact ⟨rest', rest, hl', hl, hne.symm⟩

theorem prepend (h : PartAfter front l l') (start : List α) :
    PartAfter (start ++ front) (start ++ l) (start ++ l') := by
  obtain ⟨rest, rest', rfl, rfl, hne⟩ := h
  exact ⟨rest, rest', (List.append_assoc ..).symm, (List.append_assoc ..).symm, hne⟩

theorem prefix_unique (h : PartAfter front l l') (h' : PartAfter front' l l')
    (hle : front.length ≤ front'.length) : front = front' := by
  obtain ⟨rest, rest', hl, hl', hne⟩ := h
  obtain ⟨tail, tail', ht, ht', -⟩ := h'
  obtain ⟨more, rfl⟩ := List.prefix_of_prefix_length_le ⟨rest, hl.symm⟩ ⟨tail, ht.symm⟩ hle
  cases more with
  | nil => rw [List.append_nil]
  | cons c more =>
    rw [hl, List.append_assoc] at ht
    rw [hl', List.append_assoc] at ht'
    rw [List.append_cancel_left ht, List.append_cancel_left ht'] at hne
    exact absurd rfl hne

theorem unique (h : PartAfter front l l') (h' : PartAfter front' l l') : front = front' := by
  rcases le_total front.length front'.length with hle | hle
  · exact h.prefix_unique h' hle
  · exact (h'.prefix_unique h hle).symm

end PartAfter

/-- A text that does not begin with a word leaves it somewhere. -/
theorem partAfter_of_not_prefix [DecidableEq α] {word text : List α} (h : ¬word <+: text)
    (rest : List α) : ∃ front, front <+: word ∧ front ≠ word ∧
      PartAfter front text (word ++ rest) := by
  induction word generalizing text with
  | nil => exact absurd List.nil_prefix h
  | cons c word ih =>
    cases text with
    | nil => exact ⟨[], List.nil_prefix, List.cons_ne_nil c word |>.symm, [], _, rfl, rfl, by simp⟩
    | cons d text =>
      by_cases hcd : d = c
      · subst hcd
        rw [List.cons_prefix_cons, not_and] at h
        obtain ⟨front, hprefix, hne, hpart⟩ := ih (h rfl)
        refine ⟨d :: front, List.cons_prefix_cons.mpr ⟨rfl, hprefix⟩, fun heq => hne ?_,
          hpart.prepend [d]⟩
        exact (List.cons.inj heq).2
      · exact ⟨[], List.nil_prefix, List.cons_ne_nil c word |>.symm, _, _, rfl, rfl, by simp [hcd]⟩

/-! ### Pieces -/

/-- A piece of a text, what takes its place, and the text between it and the piece before. -/
structure Piece (α : Type*) where
  before : List α
  old : List α
  new : List α

def original : List (Piece α) → List α → List α
  | [], rest => rest
  | p :: ps, rest => p.before ++ (p.old ++ original ps rest)

def rewritten : List (Piece α) → List α → List α
  | [], rest => rest
  | p :: ps, rest => p.before ++ (p.new ++ rewritten ps rest)

/-- Of each piece, its replacement and the text after it. -/
def EachPiece (holds : List α → List α → List α → Prop) : List (Piece α) → List α → Prop
  | [], _ => True
  | p :: ps, rest => holds p.old p.new (original ps rest) ∧ EachPiece holds ps rest

variable {holds : List α → List α → List α → Prop} {ps : List (Piece α)} {rest : List α}

theorem EachPiece.mono {holds' : List α → List α → List α → Prop} (h : EachPiece holds ps rest)
    (himp : ∀ old new after, holds old new after → holds' old new after) :
    EachPiece holds' ps rest := by
  induction ps with
  | nil => trivial
  | cons p ps ih => exact ⟨himp _ _ _ h.1, ih h.2⟩

theorem EachPiece.head?_eq (h : EachPiece holds ps rest)
    (hhead : ∀ old new after, holds old new after →
      ∃ c l l', old = c :: l ∧ new = c :: l') :
    (rewritten ps rest).head? = (original ps rest).head? := by
  cases ps with
  | nil => rfl
  | cons p ps =>
    obtain ⟨c, l, l', hold, hnew⟩ := hhead _ _ _ h.1
    rw [rewritten, original, hold, hnew]
    cases p.before <;> rfl

/-- A piece that changes makes the texts part in a place of its kind. -/
theorem EachPiece.parts {place : List α → Prop} (h : EachPiece holds ps rest)
    (hplace : ∀ start front, place front → place (start ++ front))
    (hhead : ∀ old new after, holds old new after →
      ∃ c l l', old = c :: l ∧ new = c :: l')
    (hpart : ∀ old new after after', holds old new after → new ≠ old →
      after'.head? = after.head? →
        ∃ front, place front ∧ PartAfter front (old ++ after) (new ++ after'))
    (hne : ∃ p ∈ ps, p.new ≠ p.old) :
    ∃ front, place front ∧ PartAfter front (original ps rest) (rewritten ps rest) := by
  induction ps with
  | nil => simp at hne
  | cons p ps ih =>
    by_cases hp : p.new = p.old
    · obtain ⟨front, hfront, hpart'⟩ := ih h.2 (by simpa [hp] using hne)
      refine ⟨p.before ++ (p.old ++ front), hplace _ _ (hplace _ _ hfront), ?_⟩
      rw [original, rewritten, hp]
      exact (hpart'.prepend _).prepend _
    · obtain ⟨front, hfront, hpart'⟩ := hpart _ _ _ _ h.1 hp (h.2.head?_eq hhead)
      exact ⟨p.before ++ front, hplace _ _ hfront, hpart'.prepend _⟩

/-! ### Neighbours -/

variable (P : α → α → Prop) [DecidableRel P]

/-- How often an element and the one after it are related. -/
def pairs : List α → ℕ
  | a :: b :: l => (if P a b then 1 else 0) + pairs (b :: l)
  | _ => 0

/-- Whether the elements at the joint of two lists are. -/
def joint (l l' : List α) : ℕ :=
  match l.getLast?, l'.head? with
  | some a, some b => if P a b then 1 else 0
  | _, _ => 0

theorem pairs_append (l l' : List α) :
    pairs P (l ++ l') = pairs P l + joint P l l' + pairs P l' := by
  induction l with
  | nil => simp [pairs, joint]
  | cons a l ih =>
    cases l with
    | nil => cases l' <;> simp [pairs, joint]
    | cons b l =>
      have hjoint : joint P (a :: b :: l) l' = joint P (b :: l) l' := by simp [joint]
      rw [hjoint, List.cons_append, List.cons_append, pairs, pairs, ← List.cons_append, ih]
      omega

/-- The new piece adds no related neighbours, inside or at its ends. -/
structure Wears (old new : List α) : Prop where
  ne_nil : new ≠ []
  first : ∀ a b, new.head? = some b → P a b → ∃ b', old.head? = some b' ∧ P a b'
  last : ∀ a b, new.getLast? = some a → ¬P a b
  pairs_le : pairs P new ≤ pairs P old

variable {P} {old new after after' : List α}

theorem Wears.pairs_add_le (h : Wears P old new) (before : List α)
    (hafter : pairs P after' ≤ pairs P after) :
    pairs P (before ++ (new ++ after')) + pairs P old ≤
      pairs P (before ++ (old ++ after)) + pairs P new := by
  have hlast : joint P new after' = 0 := by
    unfold joint
    split
    · rename_i a b ha _
      exact if_neg (h.last a b ha)
    · rfl
  obtain ⟨c, new, rfl⟩ := List.exists_cons_of_ne_nil h.ne_nil
  have hfirst : joint P before (c :: new ++ after') ≤ joint P before (old ++ after) := by
    unfold joint
    cases hb : before.getLast? with
    | none => exact le_rfl
    | some a =>
      show (if P a c then 1 else 0) ≤ _
      by_cases hP : P a c
      · obtain ⟨b', hb', hP'⟩ := h.first a c rfl hP
        have hhead : (old ++ after).head? = some b' := by
          rw [List.head?_append, hb']
          rfl
        simp only [hhead, if_pos hP', if_pos hP, le_refl]
      · rw [if_neg hP]
        exact Nat.zero_le _
  have h₁ := pairs_append P before (c :: new ++ after')
  have h₂ := pairs_append P (c :: new) after'
  have h₃ := pairs_append P before (old ++ after)
  have h₄ := pairs_append P old after
  omega

theorem EachPiece.pairs_le (h : EachPiece (fun old new _ => Wears P old new) ps rest) :
    pairs P (rewritten ps rest) ≤ pairs P (original ps rest) := by
  induction ps with
  | nil => exact le_rfl
  | cons p ps ih =>
    have hle := h.1.pairs_add_le p.before (ih h.2)
    have hpiece := h.1.pairs_le
    rw [rewritten, original]
    omega

/-- If every new piece has fewer of them, so has the text. -/
theorem EachPiece.pairs_lt
    (h : EachPiece (fun old new _ => Wears P old new ∧ pairs P new < pairs P old) ps rest)
    (hne : ps ≠ []) : pairs P (rewritten ps rest) < pairs P (original ps rest) := by
  cases ps with
  | nil => exact absurd rfl hne
  | cons p ps =>
    have hrest := (h.2.mono fun _ _ _ hpiece => hpiece.1).pairs_le
    have hle := h.1.1.pairs_add_le p.before hrest
    have hpiece := h.1.2
    rw [rewritten, original]
    omega

end Codegg.Library
