import Mathlib.Data.List.Basic
import Mathlib.Tactic

/-!
# Codes put one after the other

What a concatenation of codes determines. A code of which a value can be cut off
the front of any stream needs nothing else; of the other codes, the pieces are
determined once their lengths are. The pieces of a sequence that is placed in a program
follow each other there.
-/
namespace Codegg.Library

/-! ### Little-endian bytes -/

/-- The low `w` bytes of `n`, least significant first. -/
def leBytes : ℕ → ℕ → List UInt8
  | 0, _ => []
  | w + 1, n => UInt8.ofNat (n % 256) :: leBytes w (n / 256)

/-- The number that some bytes are, least significant first. -/
def ofLeBytes : List UInt8 → ℕ
  | [] => 0
  | b :: bytes => b.toNat + 256 * ofLeBytes bytes

@[simp] theorem length_leBytes (w n : ℕ) : (leBytes w n).length = w := by
  induction w generalizing n with
  | zero => rfl
  | succ w ih => simp [leBytes, ih]

variable {w : ℕ}

@[simp] theorem ofLeBytes_leBytes {n : ℕ} (h : n < 256 ^ w) :
    ofLeBytes (leBytes w n) = n := by
  induction w generalizing n with
  | zero =>
    have hzero : n = 0 := by simpa using h
    simp [leBytes, ofLeBytes, hzero]
  | succ w ih =>
    have hdiv : n / 256 < 256 ^ w := by omega
    have hbyte : (UInt8.ofNat (n % 256)).toNat = n % 256 := by simp
    rw [leBytes, ofLeBytes, ih hdiv]
    omega

theorem leBytes_inj {m n : ℕ} (hm : m < 256 ^ w) (hn : n < 256 ^ w) (h : leBytes w m = leBytes w n) :
    m = n := by
  have hread := congrArg ofLeBytes h
  rwa [ofLeBytes_leBytes hm, ofLeBytes_leBytes hn] at hread

/-! ### Codes that can be cut off -/

variable {α β : Type*} {P : α → Prop} {code : α → List β}

/-- A value with the property can be cut off the front of any stream. -/
def SelfDelimiting (P : α → Prop) (code : α → List β) : Prop :=
  ∀ x y r s, P x → P y → code x ++ r = code y ++ s → x = y ∧ r = s

/-- A code with a reader that takes a value off the front. -/
theorem SelfDelimiting.of_reader {read : List β → Option (α × List β)}
    (h : ∀ x r, P x → read (code x ++ r) = some (x, r)) : SelfDelimiting P code := by
  intro x y r s hx hy heq
  have hread := (h x r hx).symm.trans (heq ▸ h y s hy)
  simpa using hread

/-- A code of one width. -/
theorem SelfDelimiting.of_length (hlen : ∀ x, P x → (code x).length = w)
    (hinj : ∀ x y, P x → P y → code x = code y → x = y) : SelfDelimiting P code := by
  intro x y r s hx hy heq
  have hsame : (code x).length = (code y).length := (hlen x hx).trans (hlen y hy).symm
  obtain ⟨hcode, hrest⟩ := List.append_inj heq hsame
  exact ⟨hinj x y hx hy hcode, hrest⟩

theorem selfDelimiting_leBytes (w : ℕ) : SelfDelimiting (· < 256 ^ w) (leBytes w) :=
  .of_length (fun _ _ => length_leBytes w _) fun _ _ hx hy => leBytes_inj hx hy

variable {xs ys : List α} {r s : List β}

/-- As many codes one after the other. -/
theorem SelfDelimiting.flatMap (h : SelfDelimiting P code) (hxs : ∀ x ∈ xs, P x)
    (hys : ∀ y ∈ ys, P y) (hlen : xs.length = ys.length)
    (heq : xs.flatMap code ++ r = ys.flatMap code ++ s) : xs = ys ∧ r = s := by
  induction xs generalizing ys with
  | nil =>
    obtain rfl := List.length_eq_zero_iff.mp hlen.symm
    exact ⟨rfl, heq⟩
  | cons x xs ih =>
    cases ys with
    | nil => simp at hlen
    | cons y ys =>
      simp only [List.flatMap_cons, List.append_assoc] at heq
      obtain ⟨rfl, hrest⟩ := h x y _ _ (hxs x List.mem_cons_self) (hys y List.mem_cons_self) heq
      obtain ⟨rfl, hend⟩ := ih (fun z hz => hxs z (List.mem_cons_of_mem x hz))
        (fun z hz => hys z (List.mem_cons_of_mem x hz)) (by simpa using hlen) hrest
      exact ⟨rfl, hend⟩

/-! ### Pieces of known lengths -/

theorem length_flatMap_of_length (hlen : ∀ x, (code x).length = w) :
    (xs.flatMap code).length = w * xs.length := by
  induction xs with
  | nil => rfl
  | cons x xs ih =>
    rw [List.flatMap_cons, List.length_append, ih, hlen, List.length_cons]
    ring

/-- Codes of one width before rests of one length, however many there are. -/
theorem flatMap_inj_of_length (hw : 0 < w) (hlen : ∀ x, (code x).length = w)
    (hinj : ∀ x y, code x = code y → x = y) (hrest : r.length = s.length)
    (heq : xs.flatMap code ++ r = ys.flatMap code ++ s) :
    xs = ys ∧ r = s := by
  have hcode : SelfDelimiting (fun _ => True) code :=
    .of_length (fun x _ => hlen x) fun x y _ _ => hinj x y
  have hsum := congrArg List.length heq
  rw [List.length_append, List.length_append, length_flatMap_of_length hlen,
    length_flatMap_of_length hlen] at hsum
  have hcount : xs.length = ys.length := by
    have hmul : w * xs.length = w * ys.length := by omega
    exact Nat.eq_of_mul_eq_mul_left hw hmul
  exact hcode.flatMap (fun _ _ => trivial) (fun _ _ => trivial) hcount heq

/-- Pieces of the same lengths, each with the same end. -/
theorem flatMap_inj_of_lengths (hinj : ∀ x y, code x = code y → x = y) (terminator : List β)
    (hlen : xs.map (fun x => (code x).length) = ys.map (fun y => (code y).length))
    (heq : xs.flatMap (fun x => code x ++ terminator) ++ r =
      ys.flatMap (fun y => code y ++ terminator) ++ s) : xs = ys ∧ r = s := by
  induction xs generalizing ys with
  | nil =>
    cases ys with
    | nil => exact ⟨rfl, heq⟩
    | cons y ys => simp at hlen
  | cons x xs ih =>
    cases ys with
    | nil => simp at hlen
    | cons y ys =>
      simp only [List.map_cons, List.cons.injEq] at hlen
      obtain ⟨hfirst, hothers⟩ := hlen
      simp only [List.flatMap_cons, List.append_assoc] at heq
      obtain ⟨hcode, hrest⟩ := List.append_inj heq hfirst
      obtain rfl := hinj x y hcode
      obtain ⟨rfl, hend⟩ := ih hothers (List.append_cancel_left hrest)
      exact ⟨rfl, hend⟩

/-! ### Pieces of code in a program -/

section PlacedAt

variable {α : Type*}

/-- The program reads like the code from a position on. -/
def PlacedAt (program : List α) (p : ℕ) (code : List α) : Prop := code <+: program.drop p

namespace PlacedAt

variable {program xs ys : List α} {op : α} {p : ℕ}

theorem append (h : PlacedAt program p (xs ++ ys)) :
    PlacedAt program p xs ∧ PlacedAt program (p + xs.length) ys := by
  obtain ⟨rest, hrest⟩ := h
  refine ⟨⟨ys ++ rest, by rw [← hrest, List.append_assoc]⟩, rest, ?_⟩
  rw [← List.drop_drop, ← hrest, List.append_assoc, List.drop_left]

theorem left (h : PlacedAt program p (xs ++ ys)) : PlacedAt program p xs := h.append.1

theorem right (h : PlacedAt program p (xs ++ ys)) : PlacedAt program (p + xs.length) ys :=
  h.append.2

theorem head (h : PlacedAt program p (op :: xs)) : program[p]? = some op := by
  obtain ⟨rest, hrest⟩ := h
  have hdrop : program.drop p = op :: (xs ++ rest) := hrest.symm
  simpa [List.head?_drop] using congrArg List.head? hdrop

theorem tail (h : PlacedAt program p (op :: xs)) : PlacedAt program (p + 1) xs :=
  @right _ program [op] xs p h

end PlacedAt

end PlacedAt

end Codegg.Library
