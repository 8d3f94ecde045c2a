import Mathlib.Tactic

/-!
# Cutting text to a number of bytes

A text is cut to at most `n` bytes of its UTF-8 form at the last character boundary
that fits, so that no character is split. A byte range of a text whose ends are
character boundaries is replaced by another text.
-/
namespace Codegg.Library

/-- The longest run of leading characters that fits in `n` bytes. -/
def takeBytes : ℕ → List Char → List Char
  | _, [] => []
  | n, c :: cs => if c.utf8Size ≤ n then c :: takeBytes (n - c.utf8Size) cs else []

/-- The text up to the last character boundary at or before byte `n`. -/
def bytePrefix (s : String) (n : ℕ) : String :=
  String.ofList (takeBytes n s.toList)

theorem utf8ByteSize_cons (c : Char) (cs : List Char) :
    (String.ofList (c :: cs)).utf8ByteSize = c.utf8Size + (String.ofList cs).utf8ByteSize := by
  simp [String.utf8ByteSize_singleton]

theorem utf8ByteSize_takeBytes_le (n : ℕ) (cs : List Char) :
    (String.ofList (takeBytes n cs)).utf8ByteSize ≤ n := by
  induction cs generalizing n with
  | nil => simp [takeBytes]
  | cons c cs ih =>
    rw [takeBytes]
    split
    · have hrest := ih (n - c.utf8Size)
      rw [utf8ByteSize_cons]
      omega
    · simp

theorem utf8ByteSize_bytePrefix_le (s : String) (n : ℕ) : (bytePrefix s n).utf8ByteSize ≤ n :=
  utf8ByteSize_takeBytes_le n s.toList

/-- A text of characters of one byte each has as many bytes as characters. -/
theorem utf8ByteSize_eq_length {cs : List Char} (h : ∀ c ∈ cs, c.utf8Size = 1) :
    (String.ofList cs).utf8ByteSize = cs.length := by
  induction cs with
  | nil => simp
  | cons c cs ih =>
    have hc : c.utf8Size = 1 := h c List.mem_cons_self
    have hcs := ih fun d hd => h d (List.mem_cons_of_mem _ hd)
    rw [utf8ByteSize_cons, List.length_cons]
    omega

theorem length_le_utf8ByteSize (cs : List Char) : cs.length ≤ (String.ofList cs).utf8ByteSize := by
  induction cs with
  | nil => simp
  | cons c cs ih =>
    have hc : 0 < c.utf8Size := c.utf8Size_pos
    rw [utf8ByteSize_cons, List.length_cons]
    omega

/-- A text has as many bytes as characters only if every character has one byte. -/
theorem utf8ByteSize_eq_length_iff {cs : List Char} :
    (String.ofList cs).utf8ByteSize = cs.length ↔ ∀ c ∈ cs, c.utf8Size = 1 := by
  refine ⟨fun h => ?_, utf8ByteSize_eq_length⟩
  induction cs with
  | nil => simp
  | cons c cs ih =>
    have hc : 0 < c.utf8Size := c.utf8Size_pos
    have hle := length_le_utf8ByteSize cs
    rw [utf8ByteSize_cons, List.length_cons] at h
    rw [List.forall_mem_cons]
    exact ⟨by omega, ih (by omega)⟩

theorem utf8Size_of_isDigit {c : Char} (h : c.isDigit = true) : c.utf8Size = 1 := by
  rw [Char.isDigit_iff_toNat] at h
  have hval : c.val.toNat ≤ 57 := h.2
  rw [Char.utf8Size, if_pos]
  exact UInt32.le_iff_toNat_le.mpr (hval.trans (by decide))

/-- The decimal form of a number below `10 ^ k` has at most `k` bytes. -/
theorem utf8ByteSize_repr_le {n k : ℕ} (hk : 0 < k) (h : n < 10 ^ k) :
    n.repr.utf8ByteSize ≤ k := by
  have hdigits : ∀ c ∈ Nat.toDigits 10 n, c.utf8Size = 1 := fun c hc =>
    utf8Size_of_isDigit (Nat.isDigit_of_mem_toDigits (by decide) (by decide) hc)
  rw [Nat.repr_eq_ofList_toDigits, utf8ByteSize_eq_length hdigits]
  exact (Nat.length_toDigits_le_iff (by decide) hk).mpr h

/-- The bytes of the UTF-8 form. -/
def byteLen (cs : List Char) : ℕ := (cs.map Char.utf8Size).sum

@[simp] theorem byteLen_nil : byteLen [] = 0 := rfl

@[simp] theorem byteLen_cons (c : Char) (cs : List Char) :
    byteLen (c :: cs) = c.utf8Size + byteLen cs := rfl

@[simp] theorem byteLen_append (xs ys : List Char) :
    byteLen (xs ++ ys) = byteLen xs + byteLen ys := by
  simp [byteLen]

/-- Byte `n` of the text is the start of a character, or the text's end. -/
def isCharBoundary (n : ℕ) (cs : List Char) : Bool := byteLen (takeBytes n cs) = n

/-- The text from the last character boundary at or before byte `n` on. -/
def dropBytes (n : ℕ) (cs : List Char) : List Char := cs.drop (takeBytes n cs).length

theorem takeBytes_zero (cs : List Char) : takeBytes 0 cs = [] := by
  cases cs with
  | nil => rfl
  | cons c cs =>
    have hc : ¬ c.utf8Size ≤ 0 := by
      have hpos := c.utf8Size_pos
      omega
    rw [takeBytes, if_neg hc]

theorem takeBytes_append (xs ys : List Char) (n : ℕ) :
    takeBytes (byteLen xs + n) (xs ++ ys) = xs ++ takeBytes n ys := by
  induction xs with
  | nil => simp
  | cons c xs ih =>
    have hc : c.utf8Size ≤ byteLen (c :: xs) + n := by
      rw [byteLen_cons]
      omega
    have hrest : byteLen (c :: xs) + n - c.utf8Size = byteLen xs + n := by
      rw [byteLen_cons]
      omega
    rw [List.cons_append, takeBytes, if_pos hc, hrest, ih, List.cons_append]

@[simp] theorem takeBytes_byteLen_append (xs ys : List Char) :
    takeBytes (byteLen xs) (xs ++ ys) = xs := by
  have happend := takeBytes_append xs ys 0
  rwa [takeBytes_zero, List.append_nil] at happend

@[simp] theorem dropBytes_byteLen_append (xs ys : List Char) :
    dropBytes (byteLen xs) (xs ++ ys) = ys := by
  simp [dropBytes]

theorem exists_eq_takeBytes_append (n : ℕ) (cs : List Char) : ∃ rest, cs = takeBytes n cs ++ rest := by
  induction cs generalizing n with
  | nil => exact ⟨[], rfl⟩
  | cons c cs ih =>
    rw [takeBytes]
    split
    · obtain ⟨rest, hrest⟩ := ih (n - c.utf8Size)
      refine ⟨rest, ?_⟩
      rw [List.cons_append, ← hrest]
    · exact ⟨c :: cs, rfl⟩

/-- At a character boundary the text is cut in two. -/
theorem exists_append_of_isCharBoundary {n : ℕ} {cs : List Char}
    (h : isCharBoundary n cs = true) : ∃ xs ys, cs = xs ++ ys ∧ n = byteLen xs := by
  obtain ⟨rest, hrest⟩ := exists_eq_takeBytes_append n cs
  exact ⟨_, rest, hrest, (of_decide_eq_true h).symm⟩

theorem isCharBoundary_byteLen_append (xs ys : List Char) :
    isCharBoundary (byteLen xs) (xs ++ ys) = true := by
  simp [isCharBoundary]

theorem eq_nil_of_byteLen_eq_zero {cs : List Char} (h : byteLen cs = 0) : cs = [] := by
  cases cs with
  | nil => rfl
  | cons c cs =>
    have hpos := c.utf8Size_pos
    rw [byteLen_cons] at h
    omega

/-- Of two cuts of a text the later one extends the earlier one. -/
theorem exists_append_of_byteLen_le {xs ys xs' ys' : List Char} (h : xs ++ ys = xs' ++ ys')
    (hle : byteLen xs ≤ byteLen xs') : ∃ zs, xs' = xs ++ zs ∧ ys = zs ++ ys' := by
  rcases List.append_eq_append_iff.mp h with ⟨zs, hxs, hys⟩ | ⟨zs, hxs, hys⟩
  · exact ⟨zs, hxs, hys⟩
  · have hzs : zs = [] := by
      rw [hxs, byteLen_append] at hle
      exact eq_nil_of_byteLen_eq_zero (by omega)
    subst hzs
    exact ⟨[], by simp [hxs], by simpa using hys.symm⟩

/-- The text with its bytes from `start` to `stop` replaced by `insert`. -/
def replaceBytes (cs : List Char) (start stop : ℕ) (insert : List Char) : List Char :=
  takeBytes start cs ++ insert ++ dropBytes stop cs

theorem replaceBytes_append_append (xs ys zs insert : List Char) :
    replaceBytes (xs ++ ys ++ zs) (byteLen xs) (byteLen (xs ++ ys)) insert =
      xs ++ insert ++ zs := by
  rw [replaceBytes, dropBytes_byteLen_append, List.append_assoc xs ys zs,
    takeBytes_byteLen_append]

theorem replaceBytes_append (xs ys insert : List Char) :
    replaceBytes (xs ++ ys) (byteLen xs) (byteLen xs) insert = xs ++ insert ++ ys := by
  simp [replaceBytes]

end Codegg.Library
