import Mathlib.Data.List.Basic
import Mathlib.Tactic.Common

/-!
# Windows of a list

A block of storage is a list of cells; a window `[i, j)` of it is read by `slice` and
overwritten by `splice`.  The lemmas say what a write leaves of the windows before it, at it
and after it, which is all that reasoning about copies inside one block needs.
-/

namespace List

variable {α : Type*}

/-- The cells `i, …, j - 1`. -/
def slice (l : List α) (i j : ℕ) : List α := (l.drop i).take (j - i)

/-- Overwrite the cells from `i` on by `xs`. -/
def splice (l : List α) (i : ℕ) (xs : List α) : List α :=
  l.take i ++ xs ++ l.drop (i + xs.length)

lemma length_slice {l : List α} {i j : ℕ} (h : j ≤ l.length) : (l.slice i j).length = j - i := by
  simp only [slice, length_take, length_drop]
  omega

@[simp] lemma slice_self (l : List α) (i : ℕ) : l.slice i i = [] := by
  simp [slice]

/-- A write inside the block keeps its size. -/
lemma length_splice {l xs : List α} {i : ℕ} (h : i + xs.length ≤ l.length) :
    (l.splice i xs).length = l.length := by
  simp only [splice, length_append, length_take, length_drop]
  omega

/-- Extending the block does not change a window inside it. -/
lemma slice_append {l : List α} {i j : ℕ} (h : j ≤ l.length) (xs : List α) :
    (l ++ xs).slice i j = l.slice i j := by
  by_cases hij : i ≤ j
  · rw [slice, slice, drop_append_of_le_length (Nat.le_trans hij h), take_append_of_le_length]
    rw [length_drop]
    omega
  · rw [slice, slice, Nat.sub_eq_zero_of_le (Nat.le_of_not_le hij), take_zero, take_zero]

/-- Two adjacent windows make one. -/
lemma slice_append_slice {l : List α} {i j k : ℕ} (hij : i ≤ j) (hjk : j ≤ k) :
    l.slice i j ++ l.slice j k = l.slice i k := by
  have hk : k - i = (j - i) + (k - j) := by omega
  have hdrop : l.drop j = (l.drop i).drop (j - i) := by rw [drop_drop]; congr 1; omega
  rw [slice, slice, slice, hk, take_add, hdrop]

/-- The window just written holds what was written. -/
lemma slice_splice_self {l xs : List α} {i : ℕ} (h : i ≤ l.length) :
    (l.splice i xs).slice i (i + xs.length) = xs := by
  have hlen : (l.take i).length = i := by rw [length_take]; omega
  rw [slice, splice, append_assoc, drop_left' hlen, Nat.add_sub_cancel_left, take_left' rfl]

/-- A window before the write is unchanged. -/
lemma slice_splice_of_le {l xs : List α} {i j k : ℕ} (hjk : j ≤ k) (h : k ≤ l.length) :
    (l.splice k xs).slice i j = l.slice i j := by
  rw [splice, append_assoc, slice_append (by rw [length_take]; omega)]
  by_cases hij : i ≤ j
  · rw [slice, slice, drop_take, take_take, Nat.min_eq_left (by omega)]
  · rw [slice, slice, Nat.sub_eq_zero_of_le (Nat.le_of_not_le hij), take_zero, take_zero]

/-- The front of a window is a shorter window. -/
lemma take_slice {l : List α} {i j n : ℕ} (h : i + n ≤ j) :
    (l.slice i j).take n = l.slice i (i + n) := by
  rw [slice, slice, take_take, Nat.min_eq_left (by omega), Nat.add_sub_cancel_left]

/-- A window without its front is a shorter window. -/
lemma drop_slice {l : List α} {i j n : ℕ} : (l.slice i j).drop n = l.slice (i + n) j := by
  rw [slice, slice, drop_take, drop_drop, Nat.sub_sub]

end List
