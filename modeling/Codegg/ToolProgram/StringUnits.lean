import Codegg.Library.ByteText
import Codegg.ToolProgram.IntegerOps

/-!
# Units of a string

The length of a string counts bytes, its items, indices and slices count
characters. They agree on the strings in which a character is a byte.
-/
namespace Codegg.ToolProgram

open Codegg.Library

namespace ProgramValue

/-- The items from `start` up to `stop`, taken one by one. -/
theorem sliceItems_one {α : Type*} (start stop : ℕ) (items : List α) :
    sliceItems start stop 1 items = (items.take stop).drop start := by
  have hfrom (k : ℕ) :
      (((items.zipIdx k).filter fun p => decide (start ≤ p.2) && decide (p.2 < stop) &&
        decide ((p.2 - start) % 1 = 0)).map Prod.fst) =
          (items.take (stop - k)).drop (start - k) := by
    induction items generalizing k with
    | nil => simp
    | cons item items ih =>
      have hnext := ih (k + 1)
      by_cases hstop : k < stop
      · have htake : stop - k = stop - (k + 1) + 1 := by omega
        rw [htake]
        by_cases hstart : start ≤ k
        · have hzero' : start - (k + 1) = 0 := by omega
          rw [hzero'] at hnext
          simpa [hstop, hstart, Nat.mod_one] using hnext
        · have hdrop : start - k = start - (k + 1) + 1 := by omega
          rw [hdrop]
          simpa [hstart] using hnext
      · have hzero : stop - k = 0 := by omega
        have hzero' : stop - (k + 1) = 0 := by omega
        rw [hzero'] at hnext
        simpa [hstop, hzero] using hnext
  exact hfrom 0

/-- The items of a string put back together. -/
def concatItems : List ProgramValue → String
  | [] => ""
  | string s :: items => s ++ concatItems items
  | _ :: items => concatItems items

/-- The items of a text, each of one character. -/
def charItems (cs : List Char) : List ProgramValue :=
  cs.map fun c => string (String.singleton c)

theorem concatItems_charItems (cs : List Char) : concatItems (charItems cs) = String.ofList cs := by
  induction cs with
  | nil => rfl
  | cons c cs ih =>
    have hcons : concatItems (charItems (c :: cs)) =
        String.singleton c ++ concatItems (charItems cs) := rfl
    rw [hcons, ih, ← List.singleton_append, String.ofList_append]
    rfl

/-- Length, items, indices and slices of a string count the same units. -/
structure OneUnit (s : String) (len : ℕ) (items : List ProgramValue) : Prop where
  length_eq : len = items.length
  index : ∀ i : ℕ, inI64 i = true → i < len →
    ∃ item, items[i]? = some item ∧ evalIndex (string s) (int i) = .ok item
  fromEnd : ∀ i : ℕ, 1 ≤ i → i ≤ len →
    evalIndex (string s) (int (-i)) = evalIndex (string s) (int (len - i))
  slice : ∀ a b : ℕ, evalSlice (string s) (int a) (int b) none =
    .ok (string (concatItems ((items.take (min b len)).drop a)))

/-- From the end, an index is the same number of bytes from the start. -/
theorem evalIndex_fromEnd (s : String) {i : ℕ} (h1 : 1 ≤ i) (hi : i ≤ s.utf8ByteSize) :
    evalIndex (string s) (int (-i)) = evalIndex (string s) (int (s.utf8ByteSize - i)) := by
  have hwrap : wrapIndex s.utf8ByteSize (-i) = wrapIndex s.utf8ByteSize (s.utf8ByteSize - i) := by
    rw [wrapIndex, wrapIndex, if_pos (by omega), if_neg (by omega)]
    rfl
  simp only [evalIndex, hwrap]

/-- A slice never reaches past the characters, so the bound may be cut to the bytes. -/
theorem evalSlice_eq (s : String) (a b : ℕ) :
    evalSlice (string s) (int a) (int b) none =
      .ok (string (concatItems (((charItems s.toList).take (min b s.utf8ByteSize)).drop a))) := by
  have hbounds : sliceBounds s.toList.length (int a) (int b) none = .ok (a, b, 1) := by
    rfl
  have hle : s.toList.length ≤ s.utf8ByteSize := by
    simpa using length_le_utf8ByteSize s.toList
  have htake : s.toList.take (min b s.utf8ByteSize) = s.toList.take b := by
    rcases le_total b s.utf8ByteSize with hb | hb
    · rw [min_eq_left hb]
    · rw [min_eq_right hb, List.take_of_length_le hle, List.take_of_length_le (hle.trans hb)]
  have hitems : ((charItems s.toList).take (min b s.utf8ByteSize)).drop a =
      charItems ((s.toList.take b).drop a) := by
    unfold charItems
    rw [← List.map_take, ← List.map_drop, htake]
  rw [hitems, concatItems_charItems]
  simp only [evalSlice, hbounds, sliceItems_one]

/-- The string operations agree on one unit exactly for the texts of one byte a character. -/
theorem oneUnit_iff (s : String) :
    (∃ len items, length (string s) = .ok len ∧ iterableToVec (string s) = .ok items ∧
      OneUnit s len items) ↔ ∀ c ∈ s.toList, c.val ≤ 127 := by
  have hones : (∀ c ∈ s.toList, c.val ≤ 127) ↔ s.utf8ByteSize = s.toList.length := by
    have h := @utf8ByteSize_eq_length_iff s.toList
    rw [String.ofList_toList] at h
    simp only [h, Char.utf8Size_eq_one_iff]
  rw [hones]
  constructor
  · rintro ⟨len, items, hlen, hitems, h⟩
    cases hlen
    cases hitems
    simpa using h.length_eq
  · intro heq
    refine ⟨_, _, rfl, rfl, ?_⟩
    exact {
      length_eq := by simpa using heq
      index := by
        intro i hi hlt
        have hwrap : wrapIndex s.utf8ByteSize i = i := by
          rw [inI64_iff] at hi
          rw [wrapIndex, if_neg (by omega), asUsize_natCast (by omega)]
        have hlength : i < s.toList.length := heq ▸ hlt
        obtain ⟨c, hget⟩ : ∃ c, s.toList[i]? = some c :=
          ⟨_, List.getElem?_eq_getElem hlength⟩
        refine ⟨string (String.singleton c), by simp [hget], ?_⟩
        simp only [evalIndex, hwrap, hget]
      fromEnd := fun i h1 hi => evalIndex_fromEnd s h1 hi
      slice := evalSlice_eq s }

/-- One character of two bytes has length two and one item. -/
theorem e_acute_has_two_units :
    ¬∃ len items, length (string "é") = .ok len ∧ iterableToVec (string "é") = .ok items ∧
      OneUnit "é" len items := by
  rintro ⟨len, items, hlen, hitems, h⟩
  cases hlen
  cases hitems
  exact absurd h.length_eq (by decide)

end ProgramValue

end Codegg.ToolProgram
